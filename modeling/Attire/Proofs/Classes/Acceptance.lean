import Attire.Proofs.Classes.Matching
import Attire.Proofs.Classes.Merging

namespace Attire

/-! Which members a class may declare, and what it has then. -/

def MemberSpec.name : MemberSpec → String
  | field declared => declared.name
  | method declared => declared.name

namespace Composition

/-- The member may stand on top of the inherited ones: its name is new, or it is an override of a
usable method with its contract. -/
def Admits (inherited : Composition) (id : ClassId) : MemberSpec → Prop
  | .field field =>
    inherited.methods.get? field.name = none ∧ inherited.fields.get? field.name = none
  | .method spec =>
    (inherited.methods.get? spec.name = none ∧ inherited.fields.get? spec.name = none ∧
      spec.isOverride = false) ∨
    ∃ overridden, inherited.methods.get? spec.name = some (.member overridden) ∧
      overridden.sameContract (spec.signature id) ∧ spec.isOverride = true

structure Accepts (inherited : Composition) (id : ClassId) (members : List MemberSpec) : Prop where
  names : (members.map MemberSpec.name).Nodup
  admits : ∀ member ∈ members, inherited.Admits id member

/-- The signature of an own method.  An override has the owner of what it overrides. -/
def ownSignature (inherited : Composition) (id : ClassId) (spec : MethodSpec) : MethodSig :=
  match inherited.methods.get? spec.name with
  | some (.member overridden) => { spec.signature id with owner := overridden.owner }
  | _ => spec.signature id

/-- What is inherited, with the own members on top. -/
structure Completed (inherited : Composition) (id : ClassId) (members : List MemberSpec)
    (composition : Composition) : Prop where
  ownFields : composition.ownFields = members.filterMap MemberSpec.field?
  ownMethods : composition.ownMethods =
    (members.filterMap MemberSpec.method?).map (inherited.ownSignature id)
  field {index : Nat} {field : OwnField} : composition.ownFields[index]? = some field →
    composition.fields.get? field.name = some (.member ⟨⟨id, index⟩, field.name, field.ty⟩)
  method {spec : MethodSpec} : .method spec ∈ members →
    composition.methods.get? spec.name = some (.member (inherited.ownSignature id spec))
  otherField {name : String} : (∀ field, .field field ∈ members → field.name ≠ name) →
    composition.fields.get? name = inherited.fields.get? name
  otherMethod {name : String} : (∀ spec, .method spec ∈ members → spec.name ≠ name) →
    composition.methods.get? name = inherited.methods.get? name

variable {inherited composition next : Composition} {id : ClassId} {cls : ClassDef}
variable {done members rest : List MemberSpec} {member : MemberSpec} {field : OwnField}
variable {spec : MethodSpec}

theorem mem_fields : field ∈ members.filterMap MemberSpec.field? ↔ .field field ∈ members := by
  rw [List.mem_filterMap]
  constructor
  · rintro ⟨member, hmem, heq⟩
    cases member with
    | field declared => cases heq; exact hmem
    | method declared => cases heq
  · exact fun hmem => ⟨_, hmem, rfl⟩

theorem mem_methods : spec ∈ members.filterMap MemberSpec.method? ↔ .method spec ∈ members := by
  rw [List.mem_filterMap]
  constructor
  · rintro ⟨member, hmem, heq⟩
    cases member with
    | field declared => cases heq
    | method declared => cases heq; exact hmem
  · exact fun hmem => ⟨_, hmem, rfl⟩

@[simp] theorem ownSignature_name : (inherited.ownSignature id spec).name = spec.name := by
  unfold ownSignature
  split <;> rfl

theorem ownSignature_contract :
    (inherited.ownSignature id spec).contract = (spec.signature id).contract := by
  unfold ownSignature
  split <;> rfl

theorem ownSignature_unowned :
    (inherited.ownSignature id spec).unowned = (spec.signature id).unowned := by
  unfold ownSignature
  split <;> rfl

theorem accepts_nil : inherited.Accepts id [] := ⟨List.nodup_nil, nofun⟩

theorem accepts_snoc : inherited.Accepts id (done ++ [member]) ↔
    inherited.Accepts id done ∧ member.name ∉ done.map MemberSpec.name ∧
      inherited.Admits id member := by
  constructor
  · rintro ⟨hnames, hadmits⟩
    rw [List.map_append, List.map_cons, List.map_nil, ← List.concat_eq_append,
      List.nodup_concat] at hnames
    exact ⟨⟨hnames.2, fun other hmem => hadmits other (List.mem_append_left _ hmem)⟩, hnames.1,
      hadmits member (by simp)⟩
  · rintro ⟨⟨hnames, hadmits⟩, hfresh, hmember⟩
    refine ⟨?_, fun other hmem => ?_⟩
    · rw [List.map_append, List.map_cons, List.map_nil, ← List.concat_eq_append]
      exact List.nodup_concat .. |>.mpr ⟨hfresh, hnames⟩
    · rcases List.mem_append.mp hmem with hmem | hmem
      · exact hadmits other hmem
      · exact List.mem_singleton.mp hmem ▸ hmember

theorem Accepts.left (h : inherited.Accepts id (done ++ rest)) : inherited.Accepts id done := by
  refine ⟨?_, fun member hmem => h.admits member (List.mem_append_left _ hmem)⟩
  have hnames := h.names
  rw [List.map_append] at hnames
  exact hnames.of_append_left

/-! What adding one member asks for and what it does. -/

theorem addField_iff : (∃ next, composition.addField id field = .ok next) ↔
    (∀ own ∈ composition.ownFields, own.name ≠ field.name) ∧
      composition.Admits id (.field field) := by
  unfold addField Table.contains
  split
  case isTrue hown =>
    simp only [reduceCtorEq, exists_false, false_iff, not_and]
    intro hfresh
    obtain ⟨own, hmem, hname⟩ := List.any_eq_true.mp hown
    exact absurd (of_decide_eq_true hname) (hfresh own hmem)
  case isFalse hown =>
    have hfresh : ∀ own ∈ composition.ownFields, own.name ≠ field.name := fun own hmem hname =>
      hown (List.any_eq_true.mpr ⟨own, hmem, decide_eq_true hname⟩)
    simp only [Admits, ← Option.not_isSome_iff_eq_none, ← not_or, ← Bool.or_eq_true]
    split
    case isTrue hthere => simp [hthere]
    case isFalse hnew => exact ⟨fun _ => ⟨hfresh, hnew⟩, fun _ => ⟨_, rfl⟩⟩

theorem resolveMethod_iff {sig : MethodSig} : composition.resolveMethod id spec = .ok sig ↔
    composition.Admits id (.method spec) ∧ composition.ownSignature id spec = sig := by
  unfold resolveMethod Admits ownSignature Table.contains
  dsimp only
  cases hmethod : composition.methods.get? spec.name with
  | none =>
    cases hfield : composition.fields.get? spec.name with
    | none => cases spec.isOverride <;> simp
    | some entry => simp
  | some entry =>
    cases entry with
    | conflict => simp
    | member overridden =>
      cases spec.isOverride with
      | false => simp
      | true => by_cases hsame : overridden.sameContract (spec.signature id) <;> simp [hsame]

theorem addMethod_iff : (∃ next, composition.addMethod id spec = .ok next) ↔
    (∀ own ∈ composition.ownMethods, own.name ≠ spec.name) ∧
      composition.Admits id (.method spec) := by
  constructor
  · rintro ⟨next, h⟩
    obtain ⟨hfresh, sig, hsig, -⟩ := addMethod_eq_ok h
    exact ⟨hfresh, (resolveMethod_iff.mp hsig).1⟩
  · rintro ⟨hfresh, hadmits⟩
    unfold addMethod
    split
    case isTrue hown =>
      obtain ⟨own, hmem, hname⟩ := List.any_eq_true.mp hown
      exact absurd (of_decide_eq_true hname) (hfresh own hmem)
    case isFalse =>
      exact ⟨_, bind_eq_ok.mpr ⟨_, resolveMethod_iff.mpr ⟨hadmits, rfl⟩, rfl⟩⟩

namespace Completed

variable (h : inherited.Completed id done composition)
include h

/-- Under a name that no own member has, there is what is inherited. -/
theorem get?_fresh {name : String} (hname : name ∉ done.map MemberSpec.name) :
    composition.methods.get? name = inherited.methods.get? name ∧
      composition.fields.get? name = inherited.fields.get? name := by
  constructor
  · apply h.otherMethod
    rintro spec hspec rfl
    exact hname (List.mem_map.mpr ⟨_, hspec, rfl⟩)
  · apply h.otherField
    rintro field hfield rfl
    exact hname (List.mem_map.mpr ⟨_, hfield, rfl⟩)

theorem admits_iff (hname : member.name ∉ done.map MemberSpec.name) :
    composition.Admits id member ↔ inherited.Admits id member := by
  obtain ⟨hmethods, hfields⟩ := h.get?_fresh hname
  cases member with
  | field field =>
    simp only [MemberSpec.name] at hmethods hfields
    simp only [Admits, hmethods, hfields]
  | method spec =>
    simp only [MemberSpec.name] at hmethods hfields
    simp only [Admits, hmethods, hfields]

theorem mem_ownFields : field ∈ composition.ownFields ↔ .field field ∈ done := by
  rw [h.ownFields, mem_fields]

theorem mem_ownMethods (hspec : .method spec ∈ done) :
    inherited.ownSignature id spec ∈ composition.ownMethods := by
  rw [h.ownMethods]
  exact List.mem_map_of_mem (mem_methods.mpr hspec)

theorem field_isSome (hfield : .field field ∈ done) :
    (composition.fields.get? field.name).isSome := by
  obtain ⟨index, hindex⟩ := List.getElem?_of_mem (h.mem_ownFields.mpr hfield)
  rw [h.field hindex]
  rfl

/-- A field is added if its name is new and it may stand on what is inherited. -/
theorem addField_iff : (∃ next, composition.addField id field = .ok next) ↔
    (MemberSpec.field field).name ∉ done.map MemberSpec.name ∧
      inherited.Admits id (.field field) := by
  rw [Composition.addField_iff]
  constructor
  · rintro ⟨hfresh, hadmits⟩
    have hname : (MemberSpec.field field).name ∉ done.map MemberSpec.name := by
      intro hmem
      obtain ⟨other, hother, hname⟩ := List.mem_map.mp hmem
      cases other with
      | field declared => exact hfresh declared (h.mem_ownFields.mpr hother) hname
      | method declared =>
        have hthere := h.method hother
        rw [show declared.name = field.name from hname, hadmits.1] at hthere
        cases hthere
    exact ⟨hname, (h.admits_iff hname).mp hadmits⟩
  · rintro ⟨hname, hadmits⟩
    refine ⟨fun own hown heq => hname ?_, (h.admits_iff hname).mpr hadmits⟩
    exact List.mem_map.mpr ⟨_, h.mem_ownFields.mp hown, heq⟩

/-- A method is added if its name is new and it may stand on what is inherited. -/
theorem addMethod_iff (hdone : inherited.Accepts id done) :
    (∃ next, composition.addMethod id spec = .ok next) ↔
      (MemberSpec.method spec).name ∉ done.map MemberSpec.name ∧
        inherited.Admits id (.method spec) := by
  rw [Composition.addMethod_iff]
  constructor
  · rintro ⟨hfresh, hadmits⟩
    have hother : ∀ declared, .method declared ∈ done → declared.name ≠ spec.name := by
      intro declared hdeclared hname
      exact hfresh _ (h.mem_ownMethods hdeclared) (ownSignature_name.trans hname)
    have hname : (MemberSpec.method spec).name ∉ done.map MemberSpec.name := by
      intro hmem
      obtain ⟨other, hmem, hname⟩ := List.mem_map.mp hmem
      cases other with
      | method declared => exact hother declared hmem hname
      | field declared =>
        -- the own field bars a new method, and nothing is inherited that could be overridden
        have hname : declared.name = spec.name := hname
        have hsome := hname ▸ h.field_isSome hmem
        have hnone := (h.otherMethod hother).trans (hname ▸ (hdone.admits _ hmem).1)
        simp [Admits, hnone, Option.isSome_iff_ne_none.mp hsome] at hadmits
    exact ⟨hname, (h.admits_iff hname).mp hadmits⟩
  · rintro ⟨hname, hadmits⟩
    refine ⟨fun own hown heq => hname ?_, (h.admits_iff hname).mpr hadmits⟩
    rw [h.ownMethods] at hown
    obtain ⟨declared, hdeclared, rfl⟩ := List.mem_map.mp hown
    exact List.mem_map.mpr ⟨_, mem_methods.mp hdeclared, ownSignature_name.symm.trans heq⟩

theorem addField (hfresh : field.name ∉ done.map MemberSpec.name)
    (hadd : composition.addField id field = .ok next) :
    inherited.Completed id (done ++ [.field field]) next := by
  obtain ⟨-, rfl⟩ := addField_eq_ok hadd
  constructor
  case ownFields => simp [h.ownFields, MemberSpec.field?]
  case ownMethods => simp [h.ownMethods, MemberSpec.method?]
  case method => exact fun hmem => h.method (by simpa using hmem)
  case otherMethod => exact fun hname => h.otherMethod fun spec hmem => hname spec (by simp [hmem])
  case field =>
    intro index own hown
    dsimp only at hown ⊢
    rw [List.getElem?_append] at hown
    split at hown
    case isTrue hold =>
      have hmem := h.mem_ownFields.mp (List.mem_of_getElem? hown)
      have hne : own.name ≠ field.name := fun heq => hfresh (List.mem_map.mpr ⟨_, hmem, heq⟩)
      rw [Table.get?_insert_of_ne _ _ hne]
      exact h.field hown
    case isFalse hlast =>
      have hindex : index = composition.ownFields.length ∧ field = own := by
        rw [List.getElem?_singleton] at hown
        split at hown
        · exact ⟨by omega, Option.some.inj hown⟩
        · cases hown
      obtain ⟨rfl, rfl⟩ := hindex
      rw [Table.get?_insert_self]
  case otherField =>
    intro name hname
    rw [Table.get?_insert_of_ne _ _ fun heq => hname field (by simp) heq.symm]
    exact h.otherField fun own hmem => hname own (by simp [hmem])

theorem addMethod (hfresh : spec.name ∉ done.map MemberSpec.name)
    (hadd : composition.addMethod id spec = .ok next) :
    inherited.Completed id (done ++ [.method spec]) next := by
  obtain ⟨-, sig, hsig, rfl⟩ := addMethod_eq_ok hadd
  obtain ⟨-, rfl⟩ := resolveMethod_iff.mp hsig
  have hsame : composition.ownSignature id spec = inherited.ownSignature id spec := by
    unfold ownSignature
    rw [(h.get?_fresh hfresh).1]
  constructor
  case ownFields => simp [h.ownFields, MemberSpec.field?]
  case ownMethods => simp [h.ownMethods, MemberSpec.method?, hsame]
  case field => exact h.field
  case otherField => exact fun hname => h.otherField fun own hmem => hname own (by simp [hmem])
  case method =>
    intro other hmem
    dsimp only
    rcases List.mem_append.mp hmem with hmem | hmem
    · have hne : other.name ≠ spec.name := fun heq => hfresh (List.mem_map.mpr ⟨_, hmem, heq⟩)
      rw [Table.get?_insert_of_ne _ _ hne]
      exact h.method hmem
    · cases List.mem_singleton.mp hmem
      rw [Table.get?_insert_self, hsame]
  case otherMethod =>
    intro name hname
    rw [Table.get?_insert_of_ne _ _ fun heq => hname spec (by simp) heq.symm]
    exact h.otherMethod fun other hmem => hname other (by simp [hmem])

end Completed

theorem completed_nil (id : ClassId) (hfields : inherited.ownFields = [])
    (hmethods : inherited.ownMethods = []) :
    inherited.Completed id [] inherited where
  ownFields := hfields
  ownMethods := hmethods
  field h := by simp [hfields] at h
  method := nofun
  otherField _ := rfl
  otherMethod _ := rfl

namespace Completed

variable (hdone : inherited.Accepts cls.id done) (h : inherited.Completed cls.id done composition)
include hdone h

/-- One step of the composition accepts what the specification accepts. -/
theorem add_iff : (∃ next, add cls composition member = .ok next) ↔
    inherited.Accepts cls.id (done ++ [member]) := by
  rw [accepts_snoc, and_iff_right hdone]
  cases member with
  | field field =>
    rw [← h.addField_iff]
    simp only [add, mapError_eq_ok]
  | method spec =>
    rw [← h.addMethod_iff hdone]
    simp only [add, mapError_eq_ok]

/-- One step puts one member more on top. -/
theorem add (hadd : Composition.add cls composition member = .ok next) :
    inherited.Completed cls.id (done ++ [member]) next := by
  obtain ⟨-, hfresh, -⟩ := accepts_snoc.mp ((h.add_iff hdone).mp ⟨next, hadd⟩)
  cases member with
  | field field => exact h.addField hfresh (mapError_eq_ok.mp hadd)
  | method spec => exact h.addMethod hfresh (mapError_eq_ok.mp hadd)

theorem addAll (hadd : rest.foldlM (Composition.add cls) composition = .ok next) :
    inherited.Accepts cls.id (done ++ rest) ∧ inherited.Completed cls.id (done ++ rest) next := by
  induction rest generalizing done composition with
  | nil =>
    cases hadd
    rw [List.append_nil]
    exact ⟨hdone, h⟩
  | cons member rest ih =>
    rw [List.foldlM_cons] at hadd
    obtain ⟨middle, hfirst, hadd⟩ := bind_eq_ok.mp hadd
    rw [List.append_cons]
    exact ih ((h.add_iff hdone).mp ⟨middle, hfirst⟩) (h.add hdone hfirst) hadd

theorem addAll_ok (haccepts : inherited.Accepts cls.id (done ++ rest)) :
    ∃ next, rest.foldlM (Composition.add cls) composition = .ok next := by
  induction rest generalizing done composition with
  | nil => exact ⟨composition, rfl⟩
  | cons member rest ih =>
    rw [List.append_cons] at haccepts
    obtain ⟨middle, hfirst⟩ := (h.add_iff hdone).mpr haccepts.left
    obtain ⟨next, hrest⟩ := ih haccepts.left (h.add hdone hfirst) haccepts
    refine ⟨next, ?_⟩
    rw [List.foldlM_cons]
    exact bind_eq_ok.mpr ⟨middle, hfirst, hrest⟩

end Completed

/-- Members are added without an error if and only if they are acceptable. -/
theorem addAll_iff (hfields : inherited.ownFields = []) (hmethods : inherited.ownMethods = []) :
    (∃ next, members.foldlM (add cls) inherited = .ok next) ↔ inherited.Accepts cls.id members := by
  have hstart := completed_nil cls.id hfields hmethods
  exact ⟨fun ⟨next, hadd⟩ => (hstart.addAll accepts_nil hadd).1, hstart.addAll_ok accepts_nil⟩

end Composition

end Attire
