import Attire.Import.Hierarchy
import Attire.Proofs.Classes.Matching

namespace Attire

/-! Composition keeps classes alike. -/

variable {same : ClassId → ClassId → Prop}

theorem MethodSig.Matches.sameContract_eq {a a' b b' : MethodSig} (hunique : Relator.BiUnique same)
    (h : a.Matches same a') (h' : b.Matches same b') : a.sameContract b = a'.sameContract b' := by
  simp only [sameContract, h.mutating, h'.mutating, h.mutatingThis, h'.mutatingThis,
    h.ret.same_eq hunique h'.ret, Ty.Matches.sameAll_eq hunique h.params h'.params]

theorem FieldInfo.Matches.same_eq {a a' b b' : FieldInfo} (hunique : Relator.BiUnique same)
    (h : a.Matches same a') (h' : b.Matches same b') : FieldInfo.same a b = FieldInfo.same a' b' := by
  have hkey : (a.key = b.key) = (a'.key = b'.key) := by
    have howner := Relator.rel_eq hunique h.owner h'.owner
    have hindex := h.index
    have hindex' := h'.index
    obtain ⟨⟨_, _⟩, _, _⟩ := a
    obtain ⟨⟨_, _⟩, _, _⟩ := a'
    obtain ⟨⟨_, _⟩, _, _⟩ := b
    obtain ⟨⟨_, _⟩, _, _⟩ := b'
    simp_all
  simp only [FieldInfo.same, hkey, h.name, h'.name, h.ty.same_eq hunique h'.ty]

theorem MethodSpec.Matches.signature {spec spec' : MethodSpec} (h : spec.Matches same spec')
    {owner owner' : ClassId} (howner : same owner owner') :
    (spec.signature owner).Matches same (spec'.signature owner') where
  owner := howner
  name := h.name
  mutating := h.mutating
  mutatingThis := by simp only [MethodSpec.signature, h.mutating, h.mutatingThis]
  ret := h.ret
  params := h.params

structure Composition.Matches (same : ClassId → ClassId → Prop)
    (composition composition' : Composition) : Prop where
  methods : Table.Pairs (Entry.Matches (MethodSig.Matches same)) composition.methods
    composition'.methods
  fields : Table.Pairs (Entry.Matches (FieldInfo.Matches same)) composition.fields
    composition'.fields
  ownFields : List.Forall₂ (OwnField.Matches same) composition.ownFields composition'.ownFields
  ownMethods : List.Forall₂ (MethodSig.Matches same) composition.ownMethods composition'.ownMethods

namespace Composition

section

variable {α : Type} {related : α → α → Prop} {agree : α → α → Bool}
variable {table table' incoming incoming' : Table String (Entry α)}
variable (hagree : ∀ a a' b b', related a a' → related b b' → agree a b = agree a' b')
include hagree

theorem mergeEntry_matches (h : Table.Pairs (Entry.Matches related) table table')
    {entry entry' : String × Entry α} (hentry : entry.1 = entry'.1 ∧
      entry.2.Matches related entry'.2) :
    Table.Pairs (Entry.Matches related) (mergeEntry agree table entry)
      (mergeEntry agree table' entry') := by
  obtain ⟨name, value⟩ := entry
  obtain ⟨name', value'⟩ := entry'
  obtain ⟨rfl, hvalue⟩ := hentry
  have hget := h.get? Table.biUnique_eq (rfl : name = name)
  unfold mergeEntry
  dsimp only at hvalue ⊢
  obtain ⟨hnone, hnone'⟩ | ⟨existing, existing', hsome, hsome', hexisting⟩ := rel_cases hget
  · rw [hnone, hnone']
    exact h.insert Table.biUnique_eq rfl hvalue
  · rw [hsome, hsome']
    refine h.insert Table.biUnique_eq rfl ?_
    cases hexisting with
    | conflict => exact .conflict
    | member hold =>
      cases hvalue with
      | conflict => exact .conflict
      | member hnew =>
        simp only [Entry.meet, hagree _ _ _ _ hold hnew]
        split
        · exact .member hold
        · exact .conflict

theorem mergeTable_matches (h : Table.Pairs (Entry.Matches related) table table')
    (hincoming : Table.Pairs (Entry.Matches related) incoming incoming') :
    Table.Pairs (Entry.Matches related) (mergeTable agree table incoming)
      (mergeTable agree table' incoming') := by
  refine List.rel_foldl ?_ h hincoming
  intro table table' htable entry entry' hentry
  exact mergeEntry_matches hagree htable hentry

end

variable {composition composition' : Composition} {registry registry' : ClassRegistry}

theorem Matches.inheritFrom (hunique : Relator.BiUnique same)
    (h : composition.Matches same composition') {parent parent' : ClassDef}
    (hparent : parent.Matches same parent') :
    (composition.inheritFrom parent).Matches same (composition'.inheritFrom parent') :=
  { h with
    methods := mergeTable_matches (fun _ _ _ _ h h' => h.sameContract_eq hunique h') h.methods
      hparent.methods
    fields := mergeTable_matches (fun _ _ _ _ h h' => h.same_eq hunique h') h.fields hparent.fields }

theorem Matches.clash (h : composition.Matches same composition') :
    composition.clash.Matches same composition'.clash := by
  have hnames : composition.methods.keys.filter composition.fields.contains =
      composition'.methods.keys.filter composition'.fields.contains := by
    rw [h.methods.keys_eq]
    exact List.filter_congr fun name _ => h.fields.contains Table.biUnique_eq rfl
  have hall : ∀ {α : Type} {related : α → α → Prop} (names : List String)
      {table table' : Table String (Entry α)}, Table.Pairs (Entry.Matches related) table table' →
      Table.Pairs (Entry.Matches related)
        (names.foldl (fun table name => table.insert name .conflict) table)
        (names.foldl (fun table name => table.insert name .conflict) table') := by
    intro α related names table table' htable
    refine List.rel_foldl ?_ htable (List.forall₂_same.mpr fun _ _ => rfl)
    rintro _ _ htable name _ rfl
    exact htable.insert Table.biUnique_eq rfl .conflict
  unfold Composition.clash
  rw [hnames]
  exact { h with
    methods := hall _ h.methods
    fields := hall _ h.fields }

theorem ofParents_matches (h : registry.Matches same registry') {parents parents' : List ClassId}
    (hparents : List.Forall₂ same parents parents') :
    (ofParents registry parents).Matches same (ofParents registry' parents') := by
  have hfound : List.Forall₂ (ClassDef.Matches same) (parents.filterMap registry.get?)
      (parents'.filterMap registry'.get?) := by
    refine List.rel_filterMap ?_ hparents
    intro cls cls' hcls
    obtain ⟨found, found', hget, hget', hfound⟩ := h.get? hcls
    rw [hget, hget']
    exact .some hfound
  refine Matches.clash (List.rel_foldl ?_ ⟨.empty, .empty, .nil, .nil⟩ hfound)
  exact fun _ _ hcomposition _ _ => hcomposition.inheritFrom h.unique

section

variable (hunique : Relator.BiUnique same) (h : composition.Matches same composition')
variable {id id' : ClassId} (hid : same id id')
include hunique h hid

omit hunique in
theorem addField_agree {field field' : OwnField} (hfield : field.Matches same field') :
    Agree (Composition.Matches same) (composition.addField id field)
      (composition'.addField id' field') := by
  have hany : (composition.ownFields.any fun own => own.name = field.name) =
      composition'.ownFields.any fun own => own.name = field'.name := by
    rw [hfield.name]
    exact any_eq h.ownFields fun own own' hown => by rw [hown.name]
  unfold addField
  rw [hany, hfield.name, h.methods.contains Table.biUnique_eq rfl,
    h.fields.contains Table.biUnique_eq rfl]
  split
  · exact .error _
  split
  · exact .error _
  · refine .ok { h with
      fields := h.fields.insert Table.biUnique_eq rfl (.member ⟨hid, ?_, rfl, hfield.ty⟩)
      ownFields := List.rel_append h.ownFields (.cons hfield .nil) }
    exact h.ownFields.length_eq

theorem resolveMethod_agree {spec spec' : MethodSpec} (hspec : spec.Matches same spec') :
    Agree (MethodSig.Matches same) (composition.resolveMethod id spec)
      (composition'.resolveMethod id' spec') := by
  have hsig := hspec.signature hid
  have hget := h.methods.get? Table.biUnique_eq (rfl : spec.name = spec.name)
  unfold resolveMethod
  rw [← hspec.name, ← hspec.isOverride, h.fields.contains Table.biUnique_eq rfl]
  obtain ⟨hnone, hnone'⟩ | ⟨existing, existing', hsome, hsome', hexisting⟩ := rel_cases hget
  · rw [hnone, hnone']
    dsimp only
    split
    · exact .error _
    split
    · exact .error _
    · exact .ok hsig
  · rw [hsome, hsome']
    cases hexisting with
    | conflict => exact .error _
    | member hinherited =>
      dsimp only
      rw [hinherited.sameContract_eq hunique hsig]
      split
      · exact .error _
      split
      · exact .ok { hsig with owner := hinherited.owner }
      · exact .error _

theorem addMethod_agree {spec spec' : MethodSpec} (hspec : spec.Matches same spec') :
    Agree (Composition.Matches same) (composition.addMethod id spec)
      (composition'.addMethod id' spec') := by
  have hany : (composition.ownMethods.any fun own => own.name = spec.name) =
      composition'.ownMethods.any fun own => own.name = spec'.name := by
    rw [hspec.name]
    exact any_eq h.ownMethods fun own own' hown => by rw [hown.name]
  unfold addMethod
  rw [hany]
  split
  · exact .error _
  · refine (resolveMethod_agree hunique h hid hspec).bind fun sig sig' hsig => .pure { h with
      methods := ?_
      ownMethods := List.rel_append h.ownMethods (.cons hsig .nil) }
    rw [hspec.name]
    exact h.methods.insert Table.biUnique_eq rfl (.member hsig)

omit hid in
theorem add_agree {cls cls' : ClassDef} (hcls : same cls.id cls'.id) (hname : cls.name = cls'.name)
    {member member' : MemberSpec} (hmember : member.Matches same member') :
    Agree (Composition.Matches same) (composition.add cls member)
      (composition'.add cls' member') := by
  cases hmember with
  | field hfield =>
    simp only [Composition.add]
    rw [hname, hfield.name, hfield.span]
    exact (addField_agree h hcls hfield).mapError
  | method hspec =>
    simp only [Composition.add]
    rw [hname, hspec.name, hspec.span]
    exact (addMethod_agree hunique h hcls hspec).mapError

end

end Composition

/-- Composing classes of one number and of the other keeps the registries alike. -/
theorem ClassRegistry.Matches.compose {classes classes' : ClassRegistry}
    (h : classes.Matches same classes') {id id' : ClassId} (hid : same id id')
    {parents parents' : List ClassId} (hparents : List.Forall₂ same parents parents')
    {members members' : List MemberSpec}
    (hmembers : List.Forall₂ (MemberSpec.Matches same) members members') :
    Agree (ClassRegistry.Matches same) (classes.compose id parents members)
      (classes'.compose id' parents' members') := by
  obtain ⟨cls, cls', hget, hget', hcls⟩ := h.get? hid
  unfold ClassRegistry.compose
  rw [hget, hget']
  refine (Agree.foldlM (Composition.ofParents_matches h hparents) hmembers
    fun state state' member member' hstate hmember =>
      Composition.add_agree h.unique hstate hcls.id hcls.name hmember).bind
    fun composition composition' hcomposition => .pure ⟨h.unique, ?_⟩
  intro other other' hother
  obtain ⟨found, found', hfound, hfound', hmatches⟩ := h.get? hother
  simp only [get?_modify, ← Relator.rel_eq h.unique hother hid, hfound, hfound']
  split
  · exact ⟨_, _, rfl, rfl, { hmatches with
      parents := hparents
      methods := hcomposition.methods
      fields := hcomposition.fields
      ownFields := hcomposition.ownFields
      ownMethods := hcomposition.ownMethods }⟩
  · exact ⟨found, found', rfl, rfl, hmatches⟩

structure ClassSpec.Matches (same : ClassId → ClassId → Prop) (spec spec' : ClassSpec) : Prop where
  parents : List.Forall₂ same spec.parents spec'.parents
  members : List.Forall₂ (MemberSpec.Matches same) spec.members spec'.members
  span : spec.span = spec'.span

structure Hierarchies.Matches (same : ClassId → ClassId → Prop) (state state' : Hierarchies) :
    Prop where
  classes : state.classes.Matches same state'.classes
  waiting : Table.Matches same (ClassSpec.Matches same) state.waiting state'.waiting

theorem composeAfterParents_agree (steps : Nat) {below below' : List ClassId}
    {state state' : Hierarchies} {id id' : ClassId} (hbelow : List.Forall₂ same below below')
    (h : state.Matches same state') (hid : same id id') :
    Agree (Hierarchies.Matches same) (composeAfterParents steps below state id)
      (composeAfterParents steps below' state' id') := by
  induction steps generalizing below below' state state' id id' with
  | zero => exact .ok h
  | succ steps ih =>
    have hunique := h.classes.unique
    have hspec := h.waiting.get? hunique hid
    have hmem : id ∈ below ↔ id' ∈ below' := List.rel_mem hunique hid hbelow
    simp only [composeAfterParents, hmem]
    split
    case isTrue =>
      obtain ⟨cls, cls', hget, hget', hcls⟩ := h.classes.get? hid
      rw [hget, hget']
      obtain ⟨hnone, hnone'⟩ | ⟨spec, spec', hsome, hsome', hspec⟩ := rel_cases hspec
      · rw [hnone, hnone']
        simp only [Option.map_some, Option.getD_some, hcls.name]
        exact .error _
      · rw [hsome, hsome']
        simp only [Option.map_some, Option.getD_some, hcls.name, hspec.span]
        exact .error _
    case isFalse =>
      obtain ⟨hnone, hnone'⟩ | ⟨spec, spec', hsome, hsome', hspec⟩ := rel_cases hspec
      · rw [hnone, hnone']
        exact .ok h
      · rw [hsome, hsome']
        refine (Agree.foldlM h hspec.parents fun _ _ _ _ hstate hparent =>
          ih (.cons hid hbelow) hstate hparent).bind fun state state' hstate => ?_
        refine (hstate.classes.compose hid hspec.parents hspec.members).bind
          fun classes classes' hclasses => .pure ⟨hclasses, ?_⟩
        exact hstate.waiting.erase hunique hid

theorem composeAll_agree {classes classes' : ClassRegistry} (h : classes.Matches same classes')
    {specs specs' : List (ClassId × ClassSpec)}
    (hspecs : List.Forall₂ (fun entry entry' => same entry.1 entry'.1 ∧
      entry.2.Matches same entry'.2) specs specs') :
    Agree (ClassRegistry.Matches same) (composeAll classes specs) (composeAll classes' specs') := by
  have hwaiting : Table.Matches same (ClassSpec.Matches same)
      (specs.foldl (fun table entry => table.insert entry.1 entry.2) ∅)
      (specs'.foldl (fun table entry => table.insert entry.1 entry.2) ∅) := by
    refine List.rel_foldl ?_ Table.Matches.empty hspecs
    intro table table' htable entry entry' hentry
    exact htable.insert h.unique hentry.1 hentry.2
  unfold composeAll
  rw [hspecs.length_eq]
  refine (Agree.foldlM ⟨h, hwaiting⟩ hspecs fun _ _ _ _ hstate hentry =>
    composeAfterParents_agree _ .nil hstate hentry.1).bind fun state state' hstate => ?_
  exact .pure hstate.classes

end Attire
