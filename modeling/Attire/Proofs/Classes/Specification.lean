import Attire.Proofs.Classes.Acceptance

namespace Attire

/-! Composition as a whole, and the order of the parents. -/

section

variable {α β : Type} {agree : α → α → Bool} {table table' merged merged' : Table String (Entry α)}
variable {name : String}

/-- The tables have the same names and the same conflicts, and their members agree. -/
def Table.Alike (agree : α → α → Bool) (table table' : Table String (Entry α)) : Prop :=
  ∀ name, Option.Rel (Entry.Matches fun a b => (agree a b : Prop)) (table.get? name)
    (table'.get? name)

namespace Table.Alike

theorem symm (hagree : Equivalence fun a b => (agree a b : Prop)) (h : table.Alike agree table') :
    table'.Alike agree table := by
  intro name
  obtain ⟨hnone, hnone'⟩ | ⟨entry, entry', hsome, hsome', hentry⟩ := rel_cases (h name)
  · rw [hnone, hnone']
    exact .none
  · rw [hsome, hsome']
    cases hentry with
    | member hvalue => exact .some (.member (hagree.symm hvalue))
    | conflict => exact .some .conflict

theorem get?_none (h : table.Alike agree table') (hnone : table.get? name = none) :
    table'.get? name = none := by
  obtain ⟨-, hnone'⟩ | ⟨_, _, hsome, _⟩ := rel_cases (h name)
  · exact hnone'
  · rw [hnone] at hsome
    cases hsome

theorem get?_member (h : table.Alike agree table') {value : α}
    (hvalue : table.get? name = some (.member value)) :
    ∃ value', table'.get? name = some (.member value') ∧ agree value value' := by
  obtain ⟨hnone, -⟩ | ⟨_, _, hsome, hsome', hentry⟩ := rel_cases (h name)
  · rw [hvalue] at hnone
    cases hnone
  · rw [hvalue] at hsome
    cases hsome
    cases hentry with
    | member hsame => exact ⟨_, hsome', hsame⟩

end Table.Alike

namespace ClassRegistry

variable {registry : ClassRegistry} {parents parents' : List ClassId}
variable {own : ClassDef → Table String (Entry α)} {other : ClassDef → Table String (Entry β)}

theorem Offers.of_subset {entry : Entry α} (hparents : parents ⊆ parents')
    (h : registry.Offers parents own name entry) : registry.Offers parents' own name entry := by
  obtain ⟨parent, hparent, hfound⟩ := h
  exact ⟨parent, hparents hparent, hfound⟩

theorem Agreed.of_subset {value : α} (hparents : parents ⊆ parents') (hback : parents' ⊆ parents)
    (h : registry.Agreed parents agree own other name value) :
    registry.Agreed parents' agree own other name value where
  offered := h.offered.of_subset hparents
  alike entry hentry := h.alike entry (hentry.of_subset hback)
  alone entry hentry := h.alone entry (hentry.of_subset hback)

/-- What is merged from the same parents agrees, whatever their order. -/
theorem Merged.alike (hparents : parents ⊆ parents') (hback : parents' ⊆ parents)
    (h : registry.Merged parents agree own other merged)
    (h' : registry.Merged parents' agree own other merged') : merged.Alike agree merged' := by
  intro name
  cases hname : merged.get? name with
  | none =>
    have hnone := h'.absent.mpr fun entry hentry => h.absent.mp hname entry (hentry.of_subset hback)
    rw [hnone]
    exact .none
  | some entry =>
    cases entry with
    | conflict =>
      obtain ⟨⟨entry, hentry⟩, hnone⟩ := h.conflict.mp hname
      have hconflict := h'.conflict.mpr ⟨⟨entry, hentry.of_subset hparents⟩, fun value hvalue =>
        hnone value (hvalue.of_subset hback hparents)⟩
      rw [hconflict]
      exact .some .conflict
    | member value =>
      have hagreed := (h.agreed hname).of_subset hparents hback
      obtain ⟨value', hvalue'⟩ := h'.usable.mpr ⟨value, hagreed⟩
      obtain ⟨_, heq, hsame⟩ := hagreed.alike _ (h'.agreed hvalue').offered
      cases heq
      rw [hvalue']
      exact .some (.member hsame)

end ClassRegistry

end

namespace Composition

variable {inherited inherited' composition composition' : Composition} {id : ClassId}
variable {members : List MemberSpec} {member : MemberSpec}

/-- The compositions have members that agree under the same names. -/
structure Alike (composition composition' : Composition) : Prop where
  methods : composition.methods.Alike MethodSig.sameContract composition'.methods
  fields : composition.fields.Alike FieldInfo.same composition'.fields

theorem Alike.symm (h : composition.Alike composition') : composition'.Alike composition where
  methods := h.methods.symm MethodSig.sameContract_equivalence
  fields := h.fields.symm FieldInfo.same_equivalence

theorem Alike.admits (h : inherited.Alike inherited') (hmember : inherited.Admits id member) :
    inherited'.Admits id member := by
  cases member with
  | field field => exact ⟨h.methods.get?_none hmember.1, h.fields.get?_none hmember.2⟩
  | method spec =>
    rcases hmember with ⟨hmethod, hfield, hplain⟩ | ⟨overridden, hget, hsame, hoverride⟩
    · exact .inl ⟨h.methods.get?_none hmethod, h.fields.get?_none hfield, hplain⟩
    · obtain ⟨overridden', hget', hsame'⟩ := h.methods.get?_member hget
      have hequiv := MethodSig.sameContract_equivalence
      exact .inr ⟨overridden', hget', hequiv.trans (hequiv.symm hsame') hsame, hoverride⟩

theorem Alike.accepts (h : inherited.Alike inherited') (hmembers : inherited.Accepts id members) :
    inherited'.Accepts id members where
  names := hmembers.names
  admits member hmem := h.admits (hmembers.admits member hmem)

theorem Alike.accepts_iff (h : inherited.Alike inherited') :
    inherited.Accepts id members ↔ inherited'.Accepts id members :=
  ⟨h.accepts, h.symm.accepts⟩

/-- The same members on top of what agrees agree. -/
theorem Completed.alike (h : inherited.Completed id members composition)
    (h' : inherited'.Completed id members composition') (hinherited : inherited.Alike inherited') :
    composition.Alike composition' := by
  constructor
  · intro name
    by_cases hown : ∃ spec, .method spec ∈ members ∧ spec.name = name
    · obtain ⟨spec, hspec, rfl⟩ := hown
      rw [h.method hspec, h'.method hspec]
      refine .some (.member (MethodSig.sameContract_iff.mpr ?_))
      rw [ownSignature_contract, ownSignature_contract]
    · have hother : ∀ spec, .method spec ∈ members → spec.name ≠ name :=
        fun spec hspec heq => hown ⟨spec, hspec, heq⟩
      rw [h.otherMethod hother, h'.otherMethod hother]
      exact hinherited.methods name
  · intro name
    by_cases hown : ∃ field, .field field ∈ members ∧ field.name = name
    · obtain ⟨field, hfield, rfl⟩ := hown
      obtain ⟨index, hindex⟩ := List.getElem?_of_mem (h.mem_ownFields.mpr hfield)
      have hindex' : composition'.ownFields[index]? = some field := by
        rw [h'.ownFields, ← h.ownFields, hindex]
      rw [h.field hindex, h'.field hindex']
      exact .some (.member (FieldInfo.same_equivalence.refl _))
    · have hother : ∀ field, .field field ∈ members → field.name ≠ name :=
        fun field hfield heq => hown ⟨field, hfield, heq⟩
      rw [h.otherField hother, h'.otherField hother]
      exact hinherited.fields name

theorem Completed.unowned_eq (h : inherited.Completed id members composition)
    (h' : inherited'.Completed id members composition') :
    composition.ownMethods.map MethodSig.unowned = composition'.ownMethods.map MethodSig.unowned := by
  rw [h.ownMethods, h'.ownMethods, List.map_map, List.map_map]
  refine List.map_congr_left fun spec _ => ?_
  simp only [Function.comp_apply, ownSignature_unowned]

/-- The order of the parents does not count. -/
theorem ofParents_alike (registry : ClassRegistry) {parents parents' : List ClassId}
    (hparents : parents.Perm parents') :
    (ofParents registry parents).Alike (ofParents registry parents') := by
  obtain ⟨hmethods, hfields⟩ := ofParents_merged registry parents
  obtain ⟨hmethods', hfields'⟩ := ofParents_merged registry parents'
  exact ⟨hmethods.alike hparents.subset hparents.symm.subset hmethods',
    hfields.alike hparents.subset hparents.symm.subset hfields'⟩

end Composition

namespace ClassRegistry

/-- Composition of a class of the registry that a host keeps. -/
def composing (id : ClassId) (parents : List ClassId) (members : List MemberSpec) :
    EStateM ComposeError ClassRegistry Unit := do
  match (← get).compose id parents members with
  | .ok next => set next
  | .error error => throw error

/-- The class has its parents, and its own members on top of what they bring; nothing else has
changed. -/
structure Gains (registry next : ClassRegistry) (id : ClassId) (cls : ClassDef)
    (parents : List ClassId) (members : List MemberSpec) : Prop where
  others : ∀ other, other ≠ id → next.get? other = registry.get? other
  size : next.size = registry.size
  byName : next.byName = registry.byName
  composed : ∃ composition,
    (Composition.ofParents registry parents).Completed cls.id members composition ∧
    next.get? id = some { cls with
      parents
      methods := composition.methods
      fields := composition.fields
      ownFields := composition.ownFields
      ownMethods := composition.ownMethods }

variable {registry next : ClassRegistry} {id : ClassId} {cls : ClassDef}
variable {parents : List ClassId} {members : List MemberSpec}

theorem compose_iff (hcls : registry.get? id = some cls) :
    (∃ next, registry.compose id parents members = .ok next) ↔
      (Composition.ofParents registry parents).Accepts cls.id members := by
  obtain ⟨hfields, hmethods⟩ := Composition.ofParents_own registry parents
  rw [← Composition.addAll_iff hfields hmethods]
  unfold compose
  simp only [hcls, bind_eq_ok, pure_eq_ok]
  constructor
  · rintro ⟨next, composition, hadd, -⟩
    exact ⟨composition, hadd⟩
  · rintro ⟨composition, hadd⟩
    exact ⟨_, composition, hadd, rfl⟩

theorem compose_gains (hcls : registry.get? id = some cls)
    (h : registry.compose id parents members = .ok next) :
    registry.Gains next id cls parents members := by
  obtain ⟨hfields, hmethods⟩ := Composition.ofParents_own registry parents
  obtain ⟨composition, hadd, rfl⟩ := compose_eq_ok hcls h
  constructor
  case others =>
    intro other hother
    rw [get?_modify, if_neg hother]
  case size => exact Array.size_modify
  case byName => rfl
  case composed =>
    have hstart := Composition.completed_nil cls.id hfields hmethods
    refine ⟨composition, (hstart.addAll Composition.accepts_nil hadd).2, ?_⟩
    rw [get?_modify, if_pos rfl, hcls]
    rfl

theorem composing_ok (h : registry.compose id parents members = .ok next) :
    (composing id parents members).run registry = .ok () next := by
  simp only [composing, EStateM.run_bind, EStateM.run_get, h]
  rfl

theorem composing_error {error : ComposeError}
    (h : registry.compose id parents members = .error error) :
    (composing id parents members).run registry = .error error registry := by
  simp only [composing, EStateM.run_bind, EStateM.run_get, h]
  rfl

/-- Composition does what it is specified to do.  What the parents agree on is usable and the other
names that they have are conflicts; the members are accepted if and only if their names are distinct
and every one may stand on top of what is inherited; then the class has them, with the owners of what
they override, and otherwise nothing changes.  The order of the parents decides neither whether
the members are accepted nor what there is under a name, but for the owners of methods. -/
theorem compose_specified {registry : ClassRegistry} {id : ClassId} {cls : ClassDef}
    (hcls : registry.get? id = some cls) (parents : List ClassId) (members : List MemberSpec) :
    (registry.Merged parents MethodSig.sameContract ClassDef.methods ClassDef.fields
        (Composition.ofParents registry parents).methods ∧
      registry.Merged parents FieldInfo.same ClassDef.fields ClassDef.methods
        (Composition.ofParents registry parents).fields) ∧
    ((∃ next, registry.compose id parents members = .ok next) ↔
      (Composition.ofParents registry parents).Accepts cls.id members) ∧
    (∀ next, registry.compose id parents members = .ok next →
      (composing id parents members).run registry = .ok () next ∧
        registry.Gains next id cls parents members) ∧
    (∀ error, registry.compose id parents members = .error error →
      (composing id parents members).run registry = .error error registry) ∧
    ∀ parents', parents.Perm parents' →
      ((∃ next, registry.compose id parents members = .ok next) ↔
        ∃ next, registry.compose id parents' members = .ok next) ∧
      (Composition.ofParents registry parents).Alike (Composition.ofParents registry parents') ∧
      ∀ next next', registry.compose id parents members = .ok next →
        registry.compose id parents' members = .ok next' →
        ∃ found found', next.get? id = some found ∧ next'.get? id = some found' ∧
          found.methods.Alike MethodSig.sameContract found'.methods ∧
          found.fields.Alike FieldInfo.same found'.fields ∧
          found.ownFields = found'.ownFields ∧
          found.ownMethods.map MethodSig.unowned = found'.ownMethods.map MethodSig.unowned := by
  refine ⟨Composition.ofParents_merged registry parents, compose_iff hcls, ?_, ?_, ?_⟩
  · intro next h
    exact ⟨composing_ok h, compose_gains hcls h⟩
  · intro error h
    exact composing_error h
  · intro parents' hparents
    have halike := Composition.ofParents_alike registry hparents
    refine ⟨?_, halike, fun next next' h h' => ?_⟩
    · rw [compose_iff hcls, compose_iff hcls, halike.accepts_iff]
    · obtain ⟨composition, hcompleted, hfound⟩ := (compose_gains hcls h).composed
      obtain ⟨composition', hcompleted', hfound'⟩ := (compose_gains hcls h').composed
      have hown := hcompleted.alike hcompleted' halike
      refine ⟨_, _, hfound, hfound', hown.methods, hown.fields, ?_, ?_⟩
      · exact hcompleted.ownFields.trans hcompleted'.ownFields.symm
      · exact hcompleted.unowned_eq hcompleted'

/-- Two classes with a common parent, whose methods to stop differ, and a class to be composed. -/
def crossed : ClassRegistry :=
  let go : String × Entry MethodSig := ("go", .member { owner := ⟨0⟩, name := "go" })
  { classes := #[
      { id := ⟨0⟩, name := "Root", qualifiedName := "m#Root", module := ⟨0⟩, methods := ⟨[go]⟩ },
      { id := ⟨1⟩, name := "Left", qualifiedName := "m#Left", module := ⟨0⟩, parents := [⟨0⟩]
        methods := ⟨[go, ("stop", .member { owner := ⟨1⟩, name := "stop" })]⟩ },
      { id := ⟨2⟩, name := "Right", qualifiedName := "m#Right", module := ⟨0⟩, parents := [⟨0⟩]
        methods := ⟨[go, ("stop", .member { owner := ⟨2⟩, name := "stop", ret := .num })]⟩ },
      { id := ⟨3⟩, name := "Both", qualifiedName := "m#Both", module := ⟨0⟩ }] }

/-- The last class overrides the method of the first one, in its slot, and cannot use the methods that
do not agree. -/
theorem crossed_specified : ∃ next found,
    crossed.compose ⟨3⟩ [⟨1⟩, ⟨2⟩] [.method { name := "go", isOverride := true }] = .ok next ∧
    next.get? ⟨3⟩ = some found ∧
    found.methods.get? "go" = some (.member { owner := ⟨0⟩, name := "go" }) ∧
    found.methods.get? "stop" = some .conflict := by
  have hstart : crossed.get? ⟨3⟩ = some _ := rfl
  obtain ⟨-, haccepted, hgains, -, -⟩ := compose_specified hstart [⟨1⟩, ⟨2⟩]
    [.method { name := "go", isOverride := true }]
  have hgo : (Composition.ofParents crossed [⟨1⟩, ⟨2⟩]).methods.get? "go" =
      some (.member { owner := ⟨0⟩, name := "go" }) := rfl
  have hstop : (Composition.ofParents crossed [⟨1⟩, ⟨2⟩]).methods.get? "stop" =
      some .conflict := rfl
  have hadmits : (Composition.ofParents crossed [⟨1⟩, ⟨2⟩]).Admits ⟨3⟩
      (.method { name := "go", isOverride := true }) := .inr ⟨_, hgo, rfl, rfl⟩
  obtain ⟨next, hnext⟩ := haccepted.mpr
    ⟨List.nodup_singleton _, List.forall_mem_singleton.mpr hadmits⟩
  obtain ⟨-, hadded⟩ := hgains next hnext
  obtain ⟨composition, hcompleted, hfound⟩ := hadded.composed
  refine ⟨next, _, hnext, hfound, hcompleted.method List.mem_cons_self, ?_⟩
  rw [hcompleted.otherMethod (by simp), hstop]

end ClassRegistry

end Attire
