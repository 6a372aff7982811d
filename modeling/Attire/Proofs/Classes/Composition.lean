import Attire.Class.Compose
import Attire.Proofs.Classes.Ancestry
import Attire.Proofs.Results
import Attire.Proofs.Tables
import Attire.Proofs.Typing.Contracts

namespace Attire

/-! Where the members of composed classes come from. -/

namespace ClassRegistry

/-- The class itself declares the method. -/
def Declares (classes : ClassRegistry) (cls : ClassId) (sig : MethodSig) : Prop :=
  ∃ found, classes.get? cls = some found ∧ sig ∈ found.ownMethods

/-- The class itself declares the field. -/
def Stores (classes : ClassRegistry) (info : FieldInfo) : Prop :=
  ∃ found own, classes.get? info.key.owner = some found ∧
    found.ownFields[info.key.index]? = some own ∧ own.name = info.name ∧ own.ty = info.ty

/-- The class has its own members on top of what its parents have. -/
def Built (classes : ClassRegistry) (found : ClassDef) : Prop :=
  ∃ (declared : ClassDef) (members : List MemberSpec) (composition : Composition),
    declared.id = found.id ∧
    members.foldlM (Composition.add declared) (Composition.ofParents classes found.parents) =
      .ok composition ∧
    found.methods = composition.methods ∧ found.fields = composition.fields ∧
    found.ownFields = composition.ownFields ∧ found.ownMethods = composition.ownMethods

/-- Every usable method has a class above that declares it, and every declared one has a method with
its contract in the class that introduces its slot. -/
structure Composed (classes : ClassRegistry) : Prop where
  id {cls : ClassId} {found : ClassDef} : classes.get? cls = some found → found.id = cls
  parents {cls parent : ClassId} : parent ∈ classes.parents cls → classes.contains parent
  acyclic : classes.Acyclic
  method {cls : ClassId} {found : ClassDef} {name : String} {sig : MethodSig} :
    classes.get? cls = some found → (name, .member sig) ∈ found.methods.entries →
    sig.name = name ∧ ∃ owner, classes.Inherits cls owner ∧ classes.Declares owner sig
  introduced {cls : ClassId} {sig : MethodSig} : classes.Declares cls sig →
    ∃ own, classes.Declares sig.owner own ∧ own.slot = sig.slot ∧ own.contract = sig.contract
  field {cls : ClassId} {found : ClassDef} {name : String} {info : FieldInfo} :
    classes.get? cls = some found → (name, .member info) ∈ found.fields.entries →
    info.name = name ∧ classes.Inherits cls info.key.owner ∧ classes.Stores info
  methodNames {cls : ClassId} {found : ClassDef} :
    classes.get? cls = some found → (found.ownMethods.map MethodSig.name).Nodup
  fieldNames {cls : ClassId} {found : ClassDef} :
    classes.get? cls = some found → (found.ownFields.map OwnField.name).Nodup
  built {cls : ClassId} {found : ClassDef} : classes.get? cls = some found → classes.Built found

theorem contains_iff {classes : ClassRegistry} {cls : ClassId} :
    classes.contains cls ↔ ∃ found, classes.get? cls = some found := by
  constructor
  · intro h
    exact ⟨_, Array.getElem?_eq_getElem (of_decide_eq_true h)⟩
  · rintro ⟨found, hget⟩
    exact decide_eq_true (Array.getElem?_eq_some_iff.mp hget).1

theorem get?_modify {classes : ClassRegistry} {id other : ClassId}
    {change : ClassDef → ClassDef} : (classes.modify id change).get? other =
      if other = id then (classes.get? other).map change else classes.get? other := by
  obtain ⟨index⟩ := id
  obtain ⟨position⟩ := other
  simp only [get?, modify, Array.getElem?_modify, ClassId.mk.injEq, eq_comm (a := index)]

theorem parents_eq {classes : ClassRegistry} {cls : ClassId} {found : ClassDef}
    (h : classes.get? cls = some found) : classes.parents cls = found.parents := by
  simp only [ClassRegistry.parents, h]

/-- All methods for one slot have one contract. -/
theorem Composed.contract_eq {classes : ClassRegistry} (hcomposed : classes.Composed)
    {cls cls' : ClassId} {sig sig' : MethodSig} (h : classes.Declares cls sig)
    (h' : classes.Declares cls' sig') (hslot : sig.slot = sig'.slot) :
    sig.contract = sig'.contract := by
  obtain ⟨own, ⟨found, hfound, hown⟩, hownSlot, hcontract⟩ := hcomposed.introduced h
  obtain ⟨own', ⟨found', hfound', hown'⟩, hownSlot', hcontract'⟩ := hcomposed.introduced h'
  have howner : sig.owner = sig'.owner := congrArg MethodSlot.origin hslot
  rw [← howner, hfound] at hfound'
  cases hfound'
  have hname : own.name = own'.name :=
    congrArg MethodSlot.name (hownSlot.trans (hslot.trans hownSlot'.symm))
  have heq : own = own' :=
    List.inj_on_of_nodup_map (hcomposed.methodNames hfound) hown hown' hname
  rw [← hcontract, heq, hcontract']

end ClassRegistry

/-- A class that is declared but not composed. -/
structure ClassDef.Blank (cls : ClassDef) : Prop where
  parents : cls.parents = []
  methods : cls.methods.entries = []
  fields : cls.fields.entries = []
  ownFields : cls.ownFields = []
  ownMethods : cls.ownMethods = []

theorem ClassDef.Blank.built {cls : ClassDef} (h : cls.Blank) (classes : ClassRegistry) :
    classes.Built cls := by
  have hmethods : cls.methods = ∅ := congrArg Table.mk h.methods
  have hfields : cls.fields = ∅ := congrArg Table.mk h.fields
  exact ⟨cls, [], {}, rfl, by rw [h.parents]; rfl, hmethods, hfields, h.ownFields, h.ownMethods⟩

namespace Composition

/-- What the parents bring depends on their tables only. -/
theorem ofParents_congr {classes next : ClassRegistry} {parents : List ClassId}
    (h : ∀ parent ∈ parents, (classes.get? parent).map (fun cls => (cls.methods, cls.fields)) =
      (next.get? parent).map fun cls => (cls.methods, cls.fields)) :
    ofParents classes parents = ofParents next parents := by
  have hfold : ∀ composition : Composition,
      (parents.filterMap classes.get?).foldl inheritFrom composition =
        (parents.filterMap next.get?).foldl inheritFrom composition := by
    induction parents with
    | nil => exact fun _ => rfl
    | cons parent rest ih =>
      intro composition
      obtain ⟨hparent, hrest⟩ := List.forall_mem_cons.mp h
      cases hget : classes.get? parent with
      | none =>
        have hnone : next.get? parent = none := by simpa [hget] using hparent.symm
        rw [List.filterMap_cons_none hget, List.filterMap_cons_none hnone, ih hrest]
      | some cls =>
        obtain ⟨cls', hget', htables⟩ := Option.map_eq_some_iff.mp (hget ▸ hparent).symm
        rw [List.filterMap_cons_some hget, List.filterMap_cons_some hget', List.foldl_cons,
          List.foldl_cons, ih hrest]
        congr 1
        simp only [inheritFrom, (Prod.mk.inj htables).1, (Prod.mk.inj htables).2]
  exact congrArg clash (hfold {})

/-! What merging and adding keep. -/

variable {α : Type} {agree : α → α → Bool} {name : String} {value : α}
variable {table incoming : Table String (Entry α)}

theorem mem_mergeEntry {entry : String × Entry α}
    (h : (name, .member value) ∈ (mergeEntry agree table entry).entries) :
    (name, .member value) ∈ table.entries ∨ (name, .member value) = entry := by
  unfold mergeEntry at h
  split at h
  case h_1 => exact (Table.mem_insert h).symm
  case h_2 existing hexisting =>
    rcases Table.mem_insert h with heq | h
    · obtain ⟨hname, hmember⟩ := Prod.mk.injEq .. ▸ heq
      have hold : existing = .member value := by
        cases existing with
        | conflict => simp [Entry.meet] at hmember
        | member old =>
          cases hentry : entry.2 with
          | conflict => simp [hentry, Entry.meet] at hmember
          | member new =>
            rw [hentry, Entry.meet] at hmember
            split at hmember
            · exact hmember.symm
            · cases hmember
      exact .inl (hname ▸ hold ▸ Table.mem_of_get? hexisting)
    · exact .inl h

theorem mem_mergeTable (h : (name, .member value) ∈ (mergeTable agree table incoming).entries) :
    (name, .member value) ∈ table.entries ∨ (name, .member value) ∈ incoming.entries := by
  obtain ⟨entries⟩ := incoming
  unfold mergeTable at h
  dsimp only at h ⊢
  induction entries generalizing table with
  | nil => exact .inl h
  | cons entry rest ih =>
    rcases ih h with h | h
    · rcases mem_mergeEntry h with h | rfl
      · exact .inl h
      · exact .inr (by simp)
    · exact .inr (List.mem_cons_of_mem _ h)

theorem mem_conflicts {names : List String}
    (h : (name, .member value) ∈
      (names.foldl (fun table name => table.insert name .conflict) table).entries) :
    (name, .member value) ∈ table.entries := by
  induction names generalizing table with
  | nil => exact h
  | cons other rest ih =>
    rcases Table.mem_insert (ih h) with heq | h
    · cases heq
    · exact h

section

variable {classes : ClassRegistry} {id : ClassId} {parents : List ClassId}
variable {composition next : Composition}

/-- A parent has the method under the name. -/
def InheritsMethod (classes : ClassRegistry) (parents : List ClassId) (sig : MethodSig) : Prop :=
  ∃ parent ∈ parents, ∃ found, classes.get? parent = some found ∧
    (sig.name, .member sig) ∈ found.methods.entries

def InheritsField (classes : ClassRegistry) (parents : List ClassId) (info : FieldInfo) : Prop :=
  ∃ parent ∈ parents, ∃ found, classes.get? parent = some found ∧
    (info.name, .member info) ∈ found.fields.entries

/-- Every member comes from a parent or from the class itself. -/
structure Derived (classes : ClassRegistry) (id : ClassId) (parents : List ClassId)
    (composition : Composition) : Prop where
  method {name : String} {sig : MethodSig} :
    (name, .member sig) ∈ composition.methods.entries →
    sig.name = name ∧ (sig ∈ composition.ownMethods ∨ InheritsMethod classes parents sig)
  own {sig : MethodSig} : sig ∈ composition.ownMethods →
    sig.owner = id ∨ ∃ inherited, InheritsMethod classes parents inherited ∧
      inherited.slot = sig.slot ∧ inherited.contract = sig.contract
  field {name : String} {info : FieldInfo} :
    (name, .member info) ∈ composition.fields.entries →
    info.name = name ∧ (InheritsField classes parents info ∨ info.key.owner = id ∧
      ∃ own, composition.ownFields[info.key.index]? = some own ∧ own.name = info.name ∧
        own.ty = info.ty)
  methodNames : (composition.ownMethods.map MethodSig.name).Nodup
  fieldNames : (composition.ownFields.map OwnField.name).Nodup

theorem inherited_derived (hcomposed : classes.Composed) {parent : ClassDef}
    (hparent : parent ∈ parents.filterMap classes.get?)
    (h : composition.Derived classes id parents) :
    (composition.inheritFrom parent).Derived classes id parents := by
  obtain ⟨cls, hcls, hget⟩ := List.mem_filterMap.mp hparent
  refine { h with method := fun hmem => ?_, field := fun hmem => ?_ }
  · rcases mem_mergeTable hmem with hmem | hmem
    · exact h.method hmem
    · obtain ⟨rfl, -⟩ := hcomposed.method hget hmem
      exact ⟨rfl, .inr ⟨cls, hcls, parent, hget, hmem⟩⟩
  · rcases mem_mergeTable hmem with hmem | hmem
    · exact h.field hmem
    · obtain ⟨rfl, -⟩ := hcomposed.field hget hmem
      exact ⟨rfl, .inl ⟨cls, hcls, parent, hget, hmem⟩⟩

theorem ofParents_derived (hcomposed : classes.Composed) :
    (ofParents classes parents).Derived classes id parents := by
  have hstart : ({} : Composition).Derived classes id parents := {
    method := nofun
    own := nofun
    field := nofun
    methodNames := List.nodup_nil
    fieldNames := List.nodup_nil }
  have hall : ∀ {found : List ClassDef} {composition : Composition},
      found ⊆ parents.filterMap classes.get? → composition.Derived classes id parents →
      (found.foldl inheritFrom composition).Derived classes id parents := by
    intro found
    induction found with
    | nil => exact fun _ h => h
    | cons parent rest ih =>
      intro composition hsub h
      obtain ⟨hparent, hrest⟩ := List.cons_subset.mp hsub
      exact ih hrest (inherited_derived hcomposed hparent h)
  have hmerged := hall (List.Subset.refl _) hstart
  exact { hmerged with
    method := fun hmem => hmerged.method (mem_conflicts hmem)
    field := fun hmem => hmerged.field (mem_conflicts hmem) }

theorem addField_eq_ok {field : OwnField} (h : composition.addField id field = .ok next) :
    (∀ own ∈ composition.ownFields, own.name ≠ field.name) ∧
      next = { composition with
        fields := composition.fields.insert field.name
          (.member ⟨⟨id, composition.ownFields.length⟩, field.name, field.ty⟩)
        ownFields := composition.ownFields ++ [field] } := by
  unfold addField at h
  split at h
  case isTrue => cases h
  case isFalse hfresh =>
    split at h
    case isTrue => cases h
    case isFalse =>
      cases h
      exact ⟨fun own hown heq => hfresh (List.any_eq_true.mpr ⟨own, hown, by simpa using heq⟩), rfl⟩

theorem addField_derived {field : OwnField} (h : composition.Derived classes id parents)
    (hadd : composition.addField id field = .ok next) : next.Derived classes id parents := by
  obtain ⟨hother, rfl⟩ := addField_eq_ok hadd
  refine { h with field := fun hmem => ?_, fieldNames := ?_ }
  · rcases Table.mem_insert hmem with heq | hmem
    · cases heq
      exact ⟨rfl, .inr ⟨rfl, field, by simp, rfl, rfl⟩⟩
    · obtain ⟨hname, horigin⟩ := h.field hmem
      refine ⟨hname, horigin.imp (fun h => h) ?_⟩
      rintro ⟨howner, own, hown, hrest⟩
      have hlt := (List.getElem?_eq_some_iff.mp hown).1
      exact ⟨howner, own, by rw [List.getElem?_append_left hlt, hown], hrest⟩
  · dsimp only
    rw [List.map_append, List.nodup_append]
    refine ⟨h.fieldNames, by simp, ?_⟩
    simp only [List.map_cons, List.map_nil, List.mem_singleton]
    rintro name hmem _ rfl rfl
    obtain ⟨own, hown, hname⟩ := List.mem_map.mp hmem
    exact hother own hown hname

/-- A method that the class declares has its name, and the slot is its own or that of a method that
it overrides. -/
theorem resolveMethod_eq_ok {spec : MethodSpec} {sig : MethodSig}
    (h : composition.resolveMethod id spec = .ok sig) :
    sig = { spec.signature id with owner := sig.owner } ∧
      (sig.owner = id ∨ ∃ inherited, (spec.name, .member inherited) ∈ composition.methods.entries ∧
        inherited.owner = sig.owner ∧ inherited.contract = sig.contract) := by
  unfold resolveMethod at h
  dsimp only at h
  split at h
  case h_1 =>
    split at h
    · cases h
    · split at h
      · cases h
      · cases h
        exact ⟨rfl, .inl rfl⟩
  case h_2 => cases h
  case h_3 inherited hinherited =>
    split at h
    · cases h
    · split at h
      case isTrue hsame =>
        cases h
        exact ⟨rfl, .inr ⟨inherited, Table.mem_of_get? hinherited, rfl,
          MethodSig.sameContract_iff.mp hsame⟩⟩
      case isFalse => cases h

theorem addMethod_eq_ok {spec : MethodSpec} (h : composition.addMethod id spec = .ok next) :
    (∀ own ∈ composition.ownMethods, own.name ≠ spec.name) ∧
      ∃ sig, composition.resolveMethod id spec = .ok sig ∧
        next = { composition with
          methods := composition.methods.insert spec.name (.member sig)
          ownMethods := composition.ownMethods ++ [sig] } := by
  unfold addMethod at h
  split at h
  case isTrue => cases h
  case isFalse hfresh =>
    obtain ⟨sig, hsig, h⟩ := bind_eq_ok.mp h
    cases h
    exact ⟨fun own hown heq => hfresh (List.any_eq_true.mpr ⟨own, hown, by simpa using heq⟩),
      sig, hsig, rfl⟩

theorem addMethod_derived {spec : MethodSpec} (h : composition.Derived classes id parents)
    (hadd : composition.addMethod id spec = .ok next) : next.Derived classes id parents := by
  obtain ⟨hother, sig, hresolve, rfl⟩ := addMethod_eq_ok hadd
  obtain ⟨hsig, horigin⟩ := resolveMethod_eq_ok hresolve
  have hname : sig.name = spec.name := by rw [hsig]; rfl
  refine { h with method := fun hmem => ?_, own := fun hmem => ?_, methodNames := ?_ }
  · rcases Table.mem_insert hmem with heq | hmem
    · cases heq
      exact ⟨hname, .inl (by simp)⟩
    · obtain ⟨hname, hfrom⟩ := h.method hmem
      exact ⟨hname, hfrom.imp (List.mem_append_left _) fun h => h⟩
  · rcases List.mem_append.mp hmem with hmem | hmem
    · exact h.own hmem
    · obtain rfl := List.mem_singleton.mp hmem
      refine horigin.imp (fun h => h) ?_
      rintro ⟨inherited, hmem, howner, hcontract⟩
      obtain ⟨hinherited, hfrom⟩ := h.method hmem
      refine ⟨inherited, hfrom.resolve_left fun hown => hother inherited hown hinherited, ?_,
        hcontract⟩
      simp only [MethodSig.slot, howner, hinherited, hname]
  · dsimp only
    rw [List.map_append, List.nodup_append]
    refine ⟨h.methodNames, by simp, ?_⟩
    simp only [List.map_cons, List.map_nil, List.mem_singleton]
    rintro name hmem _ rfl rfl
    obtain ⟨own, hown, heq⟩ := List.mem_map.mp hmem
    exact hother own hown (heq.trans hname)

end

end Composition

/-! What a class declares, from the members that it was composed from. -/

def MemberSpec.field? : MemberSpec → Option OwnField
  | field declared => some declared
  | method _ => none

def MemberSpec.method? : MemberSpec → Option MethodSpec
  | field _ => none
  | method declared => some declared

def MethodSig.unowned (sig : MethodSig) : MethodSig := { sig with owner := ⟨0⟩ }

/-- Fields and methods as declared, in order; overrides differ in their slots only. -/
structure Realizes (members : List MemberSpec) (ownFields : List OwnField)
    (ownMethods : List MethodSig) : Prop where
  fields : ownFields = members.filterMap MemberSpec.field?
  methods : ownMethods.map MethodSig.unowned =
    (members.filterMap MemberSpec.method?).map fun spec => spec.signature ⟨0⟩

namespace Composition

variable {classes : ClassRegistry} {cls : ClassDef} {parents : List ClassId}
variable {composition next : Composition} {member : MemberSpec} {members done : List MemberSpec}

theorem add_derived (h : composition.Derived classes cls.id parents)
    (hadd : add cls composition member = .ok next) : next.Derived classes cls.id parents := by
  cases member with
  | field field => exact addField_derived h (mapError_eq_ok.mp hadd)
  | method spec => exact addMethod_derived h (mapError_eq_ok.mp hadd)

theorem add_realizes (h : Realizes done composition.ownFields composition.ownMethods)
    (hadd : add cls composition member = .ok next) :
    Realizes (done ++ [member]) next.ownFields next.ownMethods := by
  cases member with
  | field field =>
    obtain ⟨-, rfl⟩ := addField_eq_ok (mapError_eq_ok.mp hadd)
    exact ⟨by simp [h.fields, MemberSpec.field?], by simp [h.methods, MemberSpec.method?]⟩
  | method spec =>
    obtain ⟨-, sig, hresolve, rfl⟩ := addMethod_eq_ok (mapError_eq_ok.mp hadd)
    have hsig : sig.unowned = spec.signature ⟨0⟩ := by
      rw [(resolveMethod_eq_ok hresolve).1]
      rfl
    exact ⟨by simp [h.fields, MemberSpec.field?], by simp [h.methods, hsig, MemberSpec.method?]⟩

theorem addAll (done : List MemberSpec) (h : composition.Derived classes cls.id parents)
    (hdone : Realizes done composition.ownFields composition.ownMethods)
    (hadd : members.foldlM (add cls) composition = .ok next) :
    next.Derived classes cls.id parents ∧
      Realizes (done ++ members) next.ownFields next.ownMethods := by
  induction members generalizing composition done with
  | nil =>
    cases hadd
    exact ⟨h, by simpa using hdone⟩
  | cons member rest ih =>
    rw [List.foldlM_cons] at hadd
    obtain ⟨middle, hfirst, hadd⟩ := bind_eq_ok.mp hadd
    have hrest := ih (done ++ [member]) (add_derived h hfirst) (add_realizes hdone hfirst) hadd
    rw [List.append_assoc] at hrest
    exact hrest

theorem ofParents_own (classes : ClassRegistry) (parents : List ClassId) :
    (ofParents classes parents).ownFields = [] ∧ (ofParents classes parents).ownMethods = [] := by
  have hall : ∀ (found : List ClassDef) (composition : Composition),
      (found.foldl inheritFrom composition).ownFields = composition.ownFields ∧
        (found.foldl inheritFrom composition).ownMethods = composition.ownMethods := by
    intro found
    induction found with
    | nil => exact fun _ => ⟨rfl, rfl⟩
    | cons parent rest ih => exact fun composition => ih (composition.inheritFrom parent)
  exact hall _ _

end Composition

namespace ClassRegistry

variable {classes next : ClassRegistry} {id : ClassId} {parents : List ClassId}
variable {members : List MemberSpec} {cls : ClassDef}

theorem compose_eq_ok (hget : classes.get? id = some cls)
    (h : classes.compose id parents members = .ok next) :
    ∃ composition,
      members.foldlM (Composition.add cls) (Composition.ofParents classes parents) =
        .ok composition ∧
      next = classes.modify id fun cls =>
        { cls with
          parents
          methods := composition.methods
          fields := composition.fields
          ownFields := composition.ownFields
          ownMethods := composition.ownMethods } := by
  unfold compose at h
  rw [hget] at h
  obtain ⟨composition, hadd, h⟩ := bind_eq_ok.mp h
  cases h
  exact ⟨composition, hadd, rfl⟩

theorem Inherits.mono (hparents : ∀ cls, classes.parents cls ⊆ next.parents cls)
    {cls ancestor : ClassId} (h : classes.Inherits cls ancestor) : next.Inherits cls ancestor :=
  Relation.ReflTransGen.mono (fun cls _ hmem => hparents cls hmem) _ _ h

/-- The outcome of composing a blank class. -/
structure Completes (classes next : ClassRegistry) (id : ClassId) (parents : List ClassId)
    (members : List MemberSpec) : Prop where
  others : ∀ other, other ≠ id → next.get? other = classes.get? other
  size : next.size = classes.size
  byName : next.byName = classes.byName
  found : ∃ before found, classes.get? id = some before ∧ next.get? id = some found ∧
    found = { before with
      parents
      methods := found.methods
      fields := found.fields
      ownFields := found.ownFields
      ownMethods := found.ownMethods } ∧
    Realizes members found.ownFields found.ownMethods

/-- One blank class gets parents and members, each of which comes from a parent or is its own. -/
structure Adopts (classes next : ClassRegistry) (id : ClassId) (parents : List ClassId)
    (composition : Composition) (cls found : ClassDef) : Prop where
  others : ∀ other, other ≠ id → next.get? other = classes.get? other
  size : next.size = classes.size
  before : classes.get? id = some cls
  blank : cls.Blank
  after : next.get? id = some found
  same : found.id = cls.id
  parents_eq : found.parents = parents
  methods : found.methods = composition.methods
  fields : found.fields = composition.fields
  ownFields : found.ownFields = composition.ownFields
  ownMethods : found.ownMethods = composition.ownMethods
  derived : composition.Derived classes id parents
  added : ∃ members : List MemberSpec,
    members.foldlM (Composition.add cls) (Composition.ofParents classes parents) = .ok composition

namespace Adopts

variable {composition : Composition} {found : ClassDef}
variable (h : classes.Adopts next id parents composition cls found)
include h

/-- A class is the composed one, or as it was. -/
theorem split {other : ClassId} {there : ClassDef} (hthere : next.get? other = some there) :
    (other = id ∧ there = found) ∨ classes.get? other = some there := by
  by_cases hother : other = id
  · subst hother
    rw [h.after] at hthere
    cases hthere
    exact .inl ⟨rfl, rfl⟩
  · exact .inr (h.others other hother ▸ hthere)

theorem contains {other : ClassId} (hother : classes.contains other) : next.contains other := by
  simpa only [ClassRegistry.contains, h.size] using hother

theorem declares {owner : ClassId} {sig : MethodSig} (hdeclares : classes.Declares owner sig) :
    next.Declares owner sig := by
  obtain ⟨there, hthere, hsig⟩ := hdeclares
  by_cases howner : owner = id
  · subst howner
    rw [h.before] at hthere
    cases hthere
    simp [h.blank.ownMethods] at hsig
  · exact ⟨there, (h.others owner howner).trans hthere, hsig⟩

theorem stores {info : FieldInfo} (hstores : classes.Stores info) : next.Stores info := by
  obtain ⟨there, own, hthere, hown, hrest⟩ := hstores
  by_cases howner : info.key.owner = id
  · rw [howner, h.before] at hthere
    cases hthere
    simp [h.blank.ownFields] at hown
  · exact ⟨there, own, (h.others _ howner).trans hthere, hown, hrest⟩

theorem parents_of_ne {other : ClassId} (hother : other ≠ id) :
    next.parents other = classes.parents other := by
  simp only [ClassRegistry.parents, h.others other hother]

theorem parents_self : next.parents id = parents :=
  (ClassRegistry.parents_eq h.after).trans h.parents_eq

theorem inherits {other ancestor : ClassId} (hinherits : classes.Inherits other ancestor) :
    next.Inherits other ancestor := by
  refine hinherits.mono fun child => ?_
  by_cases hchild : child = id
  · subst hchild
    rw [ClassRegistry.parents_eq h.before, h.blank.parents]
    exact List.nil_subset _
  · rw [h.parents_of_ne hchild]
    exact List.Subset.refl _

theorem declares_own {sig : MethodSig} (hsig : sig ∈ composition.ownMethods) :
    next.Declares id sig :=
  ⟨found, h.after, h.ownMethods ▸ hsig⟩

variable (hcomposed : classes.Composed)
include hcomposed

/-- A member of a parent comes from above the parent, which is not the class itself. -/
theorem method_above {sig : MethodSig} (hsig : Composition.InheritsMethod classes parents sig) :
    ∃ owner, next.Inherits id owner ∧ next.Declares owner sig := by
  obtain ⟨parent, hparent, there, hthere, hmem⟩ := hsig
  obtain ⟨-, owner, hpath, hown⟩ := hcomposed.method hthere hmem
  exact ⟨owner, .head (h.parents_self ▸ hparent) (h.inherits hpath), h.declares hown⟩

theorem field_above {info : FieldInfo} (hinfo : Composition.InheritsField classes parents info) :
    next.Inherits id info.key.owner ∧ next.Stores info := by
  obtain ⟨parent, hparent, there, hthere, hmem⟩ := hinfo
  obtain ⟨-, hpath, hstored⟩ := hcomposed.field hthere hmem
  exact ⟨.head (h.parents_self ▸ hparent) (h.inherits hpath), h.stores hstored⟩

theorem introduced {sig : MethodSig} (hsig : sig ∈ composition.ownMethods) :
    ∃ own, next.Declares sig.owner own ∧ own.slot = sig.slot ∧ own.contract = sig.contract := by
  rcases h.derived.own hsig with howner | ⟨inherited, hinherited, hslot, hcontract⟩
  · exact ⟨sig, howner ▸ h.declares_own hsig, rfl, rfl⟩
  · obtain ⟨parent, -, there, hthere, hmem⟩ := hinherited
    obtain ⟨-, owner, -, hown⟩ := hcomposed.method hthere hmem
    obtain ⟨first, hfirst, hfirstSlot, hfirstContract⟩ := hcomposed.introduced hown
    have howner : inherited.owner = sig.owner := congrArg MethodSlot.origin hslot
    exact ⟨first, howner ▸ h.declares hfirst, hfirstSlot.trans hslot,
      hfirstContract.trans hcontract⟩

theorem composed (hparents : ∀ parent ∈ parents, classes.contains parent)
    (hbelow : ∀ parent ∈ parents, ¬classes.Inherits parent id)
    (hchildless : ∀ child, id ∉ classes.parents child) : next.Composed := by
  constructor
  case id =>
    intro other there hthere
    rcases h.split hthere with ⟨rfl, rfl⟩ | hold
    · exact h.same.trans (hcomposed.id h.before)
    · exact hcomposed.id hold
  case parents =>
    intro other parent hparent
    by_cases hother : other = id
    · subst hother
      exact h.contains (hparents parent (h.parents_self ▸ hparent))
    · exact h.contains (hcomposed.parents (h.parents_of_ne hother ▸ hparent))
  case acyclic =>
    exact hcomposed.acyclic.adopt (fun other => h.parents_of_ne) (h.parents_self ▸ hbelow)
  case method =>
    intro other there name sig hthere hmem
    rcases h.split hthere with ⟨rfl, rfl⟩ | hold
    · obtain ⟨hname, hown | hinherited⟩ := h.derived.method (h.methods ▸ hmem)
      · exact ⟨hname, other, .refl, h.declares_own hown⟩
      · exact ⟨hname, h.method_above hcomposed hinherited⟩
    · obtain ⟨hname, owner, hpath, hown⟩ := hcomposed.method hold hmem
      exact ⟨hname, owner, h.inherits hpath, h.declares hown⟩
  case introduced =>
    rintro other sig ⟨there, hthere, hsig⟩
    rcases h.split hthere with ⟨rfl, rfl⟩ | hold
    · exact h.introduced hcomposed (h.ownMethods ▸ hsig)
    · obtain ⟨own, hown, hrest⟩ := hcomposed.introduced ⟨there, hold, hsig⟩
      exact ⟨own, h.declares hown, hrest⟩
  case field =>
    intro other there name info hthere hmem
    rcases h.split hthere with ⟨rfl, rfl⟩ | hold
    · obtain ⟨hname, hinherited | ⟨howner, own, hown, hrest⟩⟩ :=
        h.derived.field (h.fields ▸ hmem)
      · exact ⟨hname, h.field_above hcomposed hinherited⟩
      · exact ⟨hname, howner ▸ .refl, _, own, howner ▸ h.after, h.ownFields ▸ hown, hrest⟩
    · obtain ⟨hname, hpath, hinfo⟩ := hcomposed.field hold hmem
      exact ⟨hname, h.inherits hpath, h.stores hinfo⟩
  case methodNames =>
    intro other there hthere
    rcases h.split hthere with ⟨rfl, rfl⟩ | hold
    · exact h.ownMethods ▸ h.derived.methodNames
    · exact hcomposed.methodNames hold
  case fieldNames =>
    intro other there hthere
    rcases h.split hthere with ⟨rfl, rfl⟩ | hold
    · exact h.ownFields ▸ h.derived.fieldNames
    · exact hcomposed.fieldNames hold
  case built =>
    intro other there hthere
    -- neither this class nor an older one has this one for a parent
    have hkept : ∀ parents : List ClassId, id ∉ parents →
        Composition.ofParents next parents = Composition.ofParents classes parents := by
      intro parents hnot
      refine Composition.ofParents_congr fun parent hparent => ?_
      rw [h.others parent fun heq => hnot (heq ▸ hparent)]
    rcases h.split hthere with ⟨rfl, rfl⟩ | hold
    · obtain ⟨members, hadded⟩ := h.added
      refine ⟨cls, members, composition, h.same.symm, ?_, h.methods, h.fields, h.ownFields,
        h.ownMethods⟩
      rw [h.parents_eq, hkept parents fun hmem => hbelow _ hmem .refl]
      exact hadded
    · obtain ⟨declared, members, built, hid, hadded, hrest⟩ := hcomposed.built hold
      refine ⟨declared, members, built, hid, ?_, hrest⟩
      rw [hkept there.parents (ClassRegistry.parents_eq hold ▸ hchildless other)]
      exact hadded

end Adopts

theorem compose_adopts (hcomposed : classes.Composed) (hget : classes.get? id = some cls)
    (hblank : cls.Blank) (h : classes.compose id parents members = .ok next) :
    ∃ composition found, classes.Adopts next id parents composition cls found ∧
      classes.Completes next id parents members := by
  obtain ⟨composition, hadd, hnext⟩ := compose_eq_ok hget h
  obtain ⟨hderived, hrealizes⟩ :=
    Composition.addAll [] (Composition.ofParents_derived hcomposed) (by
      obtain ⟨hfields, hmethods⟩ := Composition.ofParents_own classes parents
      rw [hfields, hmethods]
      exact ⟨rfl, rfl⟩) hadd
  rw [hcomposed.id hget] at hderived
  have hothers : ∀ other, other ≠ id → next.get? other = classes.get? other := by
    intro other hother
    rw [hnext, get?_modify, if_neg hother]
  have hsize : next.size = classes.size := by
    rw [hnext]
    exact Array.size_modify
  have hself : next.get? id = some { cls with
      parents
      methods := composition.methods
      fields := composition.fields
      ownFields := composition.ownFields
      ownMethods := composition.ownMethods } := by
    rw [hnext, get?_modify, if_pos rfl, hget]
    rfl
  refine ⟨composition, _,
    ⟨hothers, hsize, hget, hblank, hself, rfl, rfl, rfl, rfl, rfl, rfl, hderived,
      members, hadd⟩,
    ⟨hothers, hsize, ?_, cls, _, hget, hself, rfl, hrealizes⟩⟩
  rw [hnext]
  rfl

theorem compose_completes (hcomposed : classes.Composed) (hget : classes.get? id = some cls)
    (hblank : cls.Blank) (hparents : ∀ parent ∈ parents, classes.contains parent)
    (hbelow : ∀ parent ∈ parents, ¬classes.Inherits parent id)
    (hchildless : ∀ child, id ∉ classes.parents child)
    (h : classes.compose id parents members = .ok next) :
    classes.Completes next id parents members ∧ next.Composed := by
  obtain ⟨composition, found, hadopts, hcompletes⟩ := compose_adopts hcomposed hget hblank h
  exact ⟨hcompletes, hadopts.composed hcomposed hparents hbelow hchildless⟩

end ClassRegistry

end Attire
