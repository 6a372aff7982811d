import Attire.Machine.Basic
import Attire.Proofs.Classes.Acceptance
import Attire.Proofs.Classes.Registry
import Attire.Proofs.Snapshot.Fields

namespace Attire

/-! Which class of a manifest a slot is bound in. -/

namespace ClassRegistry

variable {classes : ClassRegistry} {cls owner : ClassId} {found : ClassDef}
variable {manifest : List ClassId} {slot : MethodSlot} {routine : Routine}

/-- No class has two bodies for one slot. -/
def Distinct (classes : ClassRegistry) : Prop :=
  ∀ {cls : ClassId} {found : ClassDef}, classes.get? cls = some found → found.bodies.keys.Nodup

/-- The class has the routine for the slot. -/
def Implements (classes : ClassRegistry) (cls : ClassId) (slot : MethodSlot) (routine : Routine) :
    Prop :=
  ∃ found, classes.get? cls = some found ∧ found.bodies.get? slot = some routine

theorem methodsOf_snoc (hdistinct : classes.Distinct) :
    ((classes.methodsOf (manifest ++ [cls])).get? slot = some routine) ↔
      classes.Implements cls slot routine ∨
        (∀ other, ¬classes.Implements cls slot other) ∧
          (classes.methodsOf manifest).get? slot = some routine := by
  rw [methodsOf_append]
  cases hget : classes.get? cls with
  | none => simp [Implements, hget]
  | some found =>
    rw [Table.get?_overlay (hdistinct hget)]
    cases hbody : found.bodies.get? slot <;> simp [Implements, hget, hbody]

/-- The last class of the manifest with a body for the slot is the one that counts. -/
theorem methodsOf_eq_some (hdistinct : classes.Distinct)
    (h : (classes.methodsOf manifest).get? slot = some routine) :
    ∃ front owner back, manifest = front ++ owner :: back ∧
      classes.Implements owner slot routine ∧
      ∀ cls ∈ back, ∀ other, ¬classes.Implements cls slot other := by
  induction manifest using List.reverseRecOn with
  | nil => cases h
  | append_singleton below cls ih =>
    rcases (methodsOf_snoc hdistinct).mp h with himplements | ⟨hnone, hbelow⟩
    · exact ⟨below, cls, [], rfl, himplements, nofun⟩
    · obtain ⟨front, owner, back, rfl, himplements, hback⟩ := ih hbelow
      refine ⟨front, owner, back ++ [cls], by simp, himplements, fun other hmem => ?_⟩
      rcases List.mem_append.mp hmem with hmem | hmem
      · exact hback other hmem
      · exact List.mem_singleton.mp hmem ▸ hnone

theorem manifest_singleton (classes : ClassRegistry) (cls : ClassId) :
    ∃ below, classes.manifest [cls] = below ++ [cls] := by
  simp only [manifest, List.foldl_cons, List.foldl_nil, visitClass, List.not_mem_nil, if_false]
  exact ⟨_, rfl⟩

theorem methodsOf_singleton (hdistinct : classes.Distinct)
    (h : classes.Implements cls slot routine) :
    (classes.methodsOf (classes.manifest [cls])).get? slot = some routine := by
  obtain ⟨below, hbelow⟩ := manifest_singleton classes cls
  rw [hbelow]
  exact (methodsOf_snoc hdistinct).mpr (.inl h)

end ClassRegistry

end Attire

namespace Attire

/-! Where a name that a class knows comes from: what the tables of all classes have to do with
each other. -/

/-- Of the listed classes with a property, the first one has no parent with it. -/
theorem Layered.first {parents : ClassId → List ClassId} {listed : List ClassId}
    (h : Layered parents listed) (holds : ClassId → Prop) {cls : ClassId} (hmem : cls ∈ listed)
    (hcls : holds cls) :
    ∃ first ∈ listed, holds first ∧ ∀ parent ∈ parents first, ¬holds parent := by
  classical
  cases hfind : listed.find? (fun cls => holds cls) with
  | none => exact absurd (decide_eq_true hcls) (List.find?_eq_none.mp hfind cls hmem)
  | some first =>
    obtain ⟨hfirst, front, back, hsplit, hfront⟩ := List.find?_eq_some_iff_append.mp hfind
    refine ⟨first, by simp [hsplit], of_decide_eq_true hfirst, fun parent hparent hholds => ?_⟩
    have hnot := hfront parent ((h front first back hsplit).1 hparent)
    simp [hholds] at hnot

def ClassDef.DeclaresMethod (found : ClassDef) (name : String) : Prop :=
  ∃ sig ∈ found.ownMethods, sig.name = name

def ClassDef.DeclaresField (found : ClassDef) (name : String) : Prop :=
  ∃ own ∈ found.ownFields, own.name = name

namespace ClassRegistry

variable {classes : ClassRegistry} {cls parent owner ancestor : ClassId} {found above : ClassDef}
variable {name : String} {sig : MethodSig} {info : FieldInfo} {own : OwnField} {key : FieldKey}

/-- Every class has its own members on top of what is merged from its parents. -/
theorem Composed.completed (h : classes.Composed) (hget : classes.get? cls = some found) :
    ∃ (members : List MemberSpec) (composition : Composition),
      (Composition.ofParents classes found.parents).Accepts cls members ∧
      (Composition.ofParents classes found.parents).Completed cls members composition ∧
      found.methods = composition.methods ∧ found.fields = composition.fields ∧
      found.ownFields = composition.ownFields ∧ found.ownMethods = composition.ownMethods := by
  obtain ⟨declared, members, composition, hid, hadded, hrest⟩ := h.built hget
  obtain ⟨hfields, hmethods⟩ := Composition.ofParents_own classes found.parents
  obtain ⟨haccepts, hcompleted⟩ := (Composition.completed_nil declared.id hfields hmethods).addAll
    Composition.accepts_nil hadded
  rw [hid.trans (h.id hget)] at haccepts hcompleted
  exact ⟨members, composition, haccepts, hcompleted, hrest⟩

/-- A class knows a name if it declares the name itself or one of its parents knows it. -/
def Hands {α : Type} (classes : ClassRegistry) (table : ClassDef → Table String (Entry α))
    (declares : ClassDef → String → Prop) : Prop :=
  ∀ ⦃cls : ClassId⦄ ⦃found : ClassDef⦄ ⦃name : String⦄, classes.get? cls = some found →
    ((table found).contains name ↔ declares found name ∨
      ∃ parent ∈ found.parents, ∃ above, classes.get? parent = some above ∧
        (table above).contains name)

section

variable {α : Type} {table : ClassDef → Table String (Entry α)}
variable {declares : ClassDef → String → Prop}

theorem exists_offers {parents : List ClassId} :
    (∃ entry, classes.Offers parents table name entry) ↔
      ∃ parent ∈ parents, ∃ above, classes.get? parent = some above ∧
        (table above).contains name := by
  simp only [Offers, Table.contains_iff, Table.keys, List.mem_map]
  constructor
  · rintro ⟨entry, parent, hparent, above, habove, hmem⟩
    exact ⟨parent, hparent, above, habove, (name, entry), hmem, rfl⟩
  · rintro ⟨parent, hparent, above, habove, ⟨_, entry⟩, hmem, rfl⟩
    exact ⟨entry, parent, hparent, above, habove, hmem⟩

/-- A class knows all names that its ancestors know. -/
theorem Hands.below (h : classes.Hands table declares) (hpath : classes.Inherits cls ancestor)
    (habove : classes.get? ancestor = some above) (hname : (table above).contains name) :
    ∃ found, classes.get? cls = some found ∧ (table found).contains name := by
  induction hpath using Relation.ReflTransGen.head_induction_on with
  | refl => exact ⟨above, habove, hname⟩
  | @head cls parent hparent _ ih =>
    obtain ⟨middle, hmiddle, hcontains⟩ := ih
    obtain ⟨found, hfound⟩ := contains_iff.mp (contains_of_mem_parents hparent)
    rw [parents_eq hfound] at hparent
    exact ⟨found, hfound, (h hfound).mpr (.inr ⟨parent, hparent, middle, hmiddle, hcontains⟩)⟩

/-- A name that a class knows is declared by the class or by an ancestor. -/
theorem Hands.origin (h : classes.Hands table declares) (hacyclic : classes.Acyclic)
    (hget : classes.get? cls = some found) (hname : (table found).contains name) :
    ∃ owner ∈ classes.manifest [cls], ∃ above, classes.get? owner = some above ∧
      declares above name := by
  obtain ⟨owner, hmem, ⟨above, habove, hcontains⟩, hparents⟩ :=
    (hacyclic.layered [cls]).first
      (fun cls => ∃ found, classes.get? cls = some found ∧ (table found).contains name)
      (mem_manifest_of_mem (List.mem_singleton_self cls)) ⟨found, hget, hname⟩
  refine ⟨owner, hmem, above, habove, ((h habove).mp hcontains).resolve_right ?_⟩
  rintro ⟨parent, hparent, higher, hhigher, hknown⟩
  exact hparents parent (parents_eq habove ▸ hparent) ⟨higher, hhigher, hknown⟩

end

/-- A table that has own names on top of merged ones knows these names and no others. -/
theorem Merged.knows {α β : Type} {agree : α → α → Bool} {table : ClassDef → Table String (Entry α)}
    {other : ClassDef → Table String (Entry β)} {merged mine : Table String (Entry α)}
    {parents : List ClassId} {declared : Prop} (h : classes.Merged parents agree table other merged)
    (hself : declared → (mine.get? name).isSome)
    (hrest : ¬declared → mine.get? name = merged.get? name) :
    mine.contains name ↔ declared ∨ ∃ entry, classes.Offers parents table name entry := by
  rw [Table.contains]
  by_cases hdeclared : declared
  · simp [hself hdeclared, hdeclared]
  · rw [hrest hdeclared, Option.isSome_iff_ne_none, ne_eq, h.absent, or_iff_right hdeclared]
    simp

theorem Composed.hands_methods (h : classes.Composed) :
    classes.Hands ClassDef.methods ClassDef.DeclaresMethod := by
  intro cls found name hget
  obtain ⟨members, composition, -, hcompleted, hmethods, -, -, hown⟩ := h.completed hget
  have hdeclares : found.DeclaresMethod name ↔ ∃ spec, .method spec ∈ members ∧ spec.name = name := by
    simp [ClassDef.DeclaresMethod, hown, hcompleted.ownMethods, ← Composition.mem_methods]
  rw [← exists_offers, hmethods, hdeclares]
  refine (Composition.ofParents_merged classes found.parents).1.knows ?_ fun hforeign => ?_
  · rintro ⟨spec, hspec, rfl⟩
    rw [hcompleted.method hspec]
    rfl
  · exact hcompleted.otherMethod fun spec hspec heq => hforeign ⟨spec, hspec, heq⟩

theorem Composed.hands_fields (h : classes.Composed) :
    classes.Hands ClassDef.fields ClassDef.DeclaresField := by
  intro cls found name hget
  obtain ⟨members, composition, -, hcompleted, -, hfields, hown, -⟩ := h.completed hget
  have hdeclares : found.DeclaresField name ↔ ∃ own, .field own ∈ members ∧ own.name = name := by
    simp [ClassDef.DeclaresField, hown, hcompleted.ownFields, ← Composition.mem_fields]
  rw [← exists_offers, hfields, hdeclares]
  refine (Composition.ofParents_merged classes found.parents).2.knows ?_ fun hforeign => ?_
  · rintro ⟨own, hmem, rfl⟩
    exact hcompleted.field_isSome hmem
  · exact hcompleted.otherField fun own hmem heq => hforeign ⟨own, hmem, heq⟩

/-- A method that a class declares itself is usable there. -/
theorem Composed.own_usable (h : classes.Composed) (hget : classes.get? cls = some found)
    (hname : found.DeclaresMethod name) : ∃ sig, found.method? name = some sig := by
  obtain ⟨members, composition, -, hcompleted, hmethods, -, -, hown⟩ := h.completed hget
  obtain ⟨sig, hsig, rfl⟩ := hname
  rw [hown, hcompleted.ownMethods] at hsig
  obtain ⟨spec, hspec, rfl⟩ := List.mem_map.mp hsig
  have hentry := hcompleted.method (Composition.mem_methods.mp hspec)
  rw [Composition.ownSignature_name, ClassDef.method?, hmethods, hentry]
  exact ⟨_, rfl⟩

/-- Whatever an ancestor declares under the name of a usable field is that field. -/
theorem Composed.field_key (h : classes.Composed) (hget : classes.get? cls = some found)
    (hinfo : found.fields.get? name = some (.member info))
    (hpath : classes.Inherits cls key.owner) (hown : classes.Owns key own) (hname : own.name = name) :
    key = info.key := by
  induction hpath using Relation.ReflTransGen.head_induction_on generalizing found info with
  | refl =>
    obtain ⟨above, habove, hthere⟩ := hown
    rw [hget] at habove
    cases habove
    obtain ⟨members, composition, -, hcompleted, -, hfields, hownFields, -⟩ := h.completed hget
    have hentry := hcompleted.field (hownFields ▸ hthere)
    rw [hname, ← hfields, hinfo] at hentry
    cases hentry
    rfl
  | @head cls parent hparent hrest ih =>
    obtain ⟨members, composition, haccepts, hcompleted, -, hfields, -, -⟩ := h.completed hget
    have hmerged := (Composition.ofParents_merged classes found.parents).2
    -- the parent knows the name, since it inherits from the class that declares it
    obtain ⟨above, habove, hthere⟩ := hown
    have hknown : above.fields.contains name :=
      (h.hands_fields habove).mpr (.inl ⟨own, List.mem_of_getElem? hthere, hname⟩)
    obtain ⟨middle, hmiddle, hcontains⟩ := h.hands_fields.below hrest habove hknown
    obtain ⟨entry, hentry⟩ := Option.isSome_iff_exists.mp hcontains
    have hoffers : classes.Offers found.parents ClassDef.fields name entry :=
      ⟨parent, parents_eq hget ▸ hparent, middle, hmiddle, Table.mem_of_get? hentry⟩
    have hforeign : ∀ field, .field field ∈ members → field.name ≠ name := by
      rintro field hfield rfl
      exact hmerged.absent.mp (haccepts.admits _ hfield).2 entry hoffers
    rw [hfields, hcompleted.otherField hforeign] at hinfo
    obtain ⟨member, rfl, hsame⟩ := (hmerged.agreed hinfo).alike entry hoffers
    exact (ih hmiddle hentry).trans (FieldInfo.same_iff.mp hsame).1.symm

end ClassRegistry

end Attire
