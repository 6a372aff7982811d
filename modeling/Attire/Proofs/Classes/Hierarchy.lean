import Attire.Import.Hierarchy
import Attire.Proofs.Classes.Composition

namespace Attire

/-! Composing all classes of a module. -/

/-- What is composed, and what still waits for it as it was declared. -/
structure Hierarchies.Progress (start : ClassRegistry) (specs : ClassSpecs) (state : Hierarchies) :
    Prop where
  composed : state.classes.Composed
  size : state.classes.size = start.size
  byName : state.classes.byName = start.byName
  others {id : ClassId} : specs.get? id = none → state.classes.get? id = start.get? id
  waiting {id : ClassId} {spec : ClassSpec} : state.waiting.get? id = some spec →
    specs.get? id = some spec ∧ state.classes.get? id = start.get? id
  rooted {cls parent : ClassId} : parent ∈ state.classes.parents cls →
    state.waiting.get? parent = none
  done {id : ClassId} {spec : ClassSpec} : specs.get? id = some spec →
    state.waiting.get? id = none →
    ∃ before found, start.get? id = some before ∧ state.classes.get? id = some found ∧
      found = { before with
        parents := spec.parents
        methods := found.methods
        fields := found.fields
        ownFields := found.ownFields
        ownMethods := found.ownMethods } ∧
      Realizes spec.members found.ownFields found.ownMethods

/-- The classes to be composed are declared, blank, and have declared parents.  Nothing inherits from
them yet. -/
structure ClassSpecs.Ready (specs : ClassSpecs) (classes : ClassRegistry) : Prop where
  blank {id : ClassId} {spec : ClassSpec} : specs.get? id = some spec →
    ∃ cls, classes.get? id = some cls ∧ cls.Blank
  parents {id parent : ClassId} {spec : ClassSpec} : specs.get? id = some spec →
    parent ∈ spec.parents → classes.contains parent
  childless {cls parent : ClassId} : parent ∈ classes.parents cls → specs.get? parent = none

variable {start : ClassRegistry} {specs : ClassSpecs} {state next : Hierarchies} {id : ClassId}
variable {below ids : List ClassId}

theorem Hierarchies.Progress.inherits_settled (h : state.Progress start specs)
    {cls ancestor : ClassId} (hcls : state.waiting.get? cls = none)
    (hpath : state.classes.Inherits cls ancestor) : state.waiting.get? ancestor = none := by
  cases hpath with
  | refl => exact hcls
  | tail _ hparent => exact h.rooted hparent

theorem Hierarchies.Progress.compose (h : state.Progress start specs) (hready : specs.Ready start)
    {spec : ClassSpec} (hspec : state.waiting.get? id = some spec)
    (hsettled : ∀ parent ∈ spec.parents, state.waiting.get? parent = none)
    {classes : ClassRegistry}
    (hcompose : state.classes.compose id spec.parents spec.members = .ok classes) :
    Hierarchies.Progress start specs ⟨classes, state.waiting.erase id⟩ := by
  obtain ⟨hspecs, hsame⟩ := h.waiting hspec
  obtain ⟨cls, hcls, hblank⟩ := hready.blank hspecs
  have hcontains : ∀ parent ∈ spec.parents, state.classes.contains parent := by
    intro parent hparent
    simpa only [ClassRegistry.contains, h.size] using hready.parents hspecs hparent
  have hbelow : ∀ parent ∈ spec.parents, ¬state.classes.Inherits parent id := by
    intro parent hparent hpath
    rw [h.inherits_settled (hsettled parent hparent) hpath] at hspec
    cases hspec
  have hchildless : ∀ child, id ∉ state.classes.parents child := by
    intro child hchild
    rw [h.rooted hchild] at hspec
    cases hspec
  obtain ⟨hcompletes, hcomposed⟩ := ClassRegistry.compose_completes h.composed
    (hsame.trans hcls) hblank hcontains hbelow hchildless hcompose
  have hkept : ∀ other, state.waiting.get? other = none →
      (state.waiting.erase id).get? other = none := by
    intro other hnone
    rw [Table.get?_erase, hnone, ite_self]
  constructor
  case composed => exact hcomposed
  case size => exact hcompletes.size.trans h.size
  case byName => exact hcompletes.byName.trans h.byName
  case others =>
    intro other hother
    have hne : other ≠ id := fun heq => by rw [heq, hspecs] at hother; cases hother
    exact (hcompletes.others other hne).trans (h.others hother)
  case waiting =>
    intro other otherSpec hwaiting
    rw [Table.get?_erase] at hwaiting
    split at hwaiting
    case isTrue => cases hwaiting
    case isFalse hne =>
      obtain ⟨hspecs, hsame⟩ := h.waiting hwaiting
      exact ⟨hspecs, (hcompletes.others other hne).trans hsame⟩
  case rooted =>
    intro other parent hparent
    by_cases hne : other = id
    · subst hne
      obtain ⟨before, found, -, hfound, heq, -⟩ := hcompletes.found
      rw [ClassRegistry.parents_eq hfound, heq] at hparent
      exact hkept parent (hsettled parent hparent)
    · rw [ClassRegistry.parents, hcompletes.others other hne] at hparent
      exact hkept parent (h.rooted hparent)
  case done =>
    intro other otherSpec hother hwaiting
    by_cases hne : other = id
    · subst hne
      rw [hspecs] at hother
      cases hother
      obtain ⟨before, found, hbefore, hrest⟩ := hcompletes.found
      exact ⟨before, found, hsame ▸ hbefore, hrest⟩
    · rw [Table.get?_erase, if_neg hne] at hwaiting
      obtain ⟨before, found, hbefore, hfound, hrest⟩ := h.done hother hwaiting
      exact ⟨before, found, hbefore, (hcompletes.others other hne).trans hfound, hrest⟩

/-- Classes whose parents are being composed go on waiting, and nothing waits anew. -/
structure Hierarchies.Advances (start : ClassRegistry) (specs : ClassSpecs) (below : List ClassId)
    (state next : Hierarchies) : Prop where
  progress : next.Progress start specs
  still : ∀ other ∈ below, next.waiting.get? other = state.waiting.get? other
  settled : ∀ other, state.waiting.get? other = none → next.waiting.get? other = none

theorem Hierarchies.Advances.refl (h : state.Progress start specs) :
    Advances start specs below state state :=
  ⟨h, fun _ _ => rfl, fun _ h => h⟩

theorem Hierarchies.Advances.trans {middle : Hierarchies}
    (hfirst : Advances start specs below state middle)
    (hrest : Advances start specs below middle next) : Advances start specs below state next where
  progress := hrest.progress
  still other hmem := (hrest.still other hmem).trans (hfirst.still other hmem)
  settled other hnone := hrest.settled other (hfirst.settled other hnone)

theorem composeEach_advances {compose : Hierarchies → ClassId → Except ComposeError Hierarchies}
    (hcompose : ∀ {state next : Hierarchies} {id : ClassId}, state.Progress start specs →
      compose state id = .ok next →
      state.Advances start specs below next ∧ next.waiting.get? id = none) :
    ∀ {items : List ClassId} {state next : Hierarchies}, state.Progress start specs →
      items.foldlM compose state = .ok next →
      state.Advances start specs below next ∧ ∀ item ∈ items, next.waiting.get? item = none
  | [], _, _, h, hfold => by
    cases hfold
    exact ⟨.refl h, nofun⟩
  | first :: rest, state, next, h, hfold => by
    rw [List.foldlM_cons] at hfold
    obtain ⟨middle, hmiddle, hfold⟩ := bind_eq_ok.mp hfold
    obtain ⟨hfirst, hsettled⟩ := hcompose h hmiddle
    obtain ⟨hrest, hall⟩ := composeEach_advances hcompose hfirst.progress hfold
    refine ⟨hfirst.trans hrest, fun item hmem => ?_⟩
    rcases List.mem_cons.mp hmem with rfl | hmem
    · exact hrest.settled item hsettled
    · exact hall item hmem

/-- Chains of waiting classes are no longer than the list of classes, so no composition is cut
short. -/
theorem composeAfterParents_advances (hready : specs.Ready start)
    (hids : ∀ {id spec}, specs.get? id = some spec → id ∈ ids) :
    ∀ {steps : Nat} {below : List ClassId} {state next : Hierarchies} {id : ClassId},
      below.Nodup → below ⊆ ids → ids.length < steps + below.length →
      state.Progress start specs → composeAfterParents steps below state id = .ok next →
      state.Advances start specs below next ∧ next.waiting.get? id = none
  | 0, below, _, _, _, hnodup, hsubset, hsteps, _, _ => by
    -- The chain would be longer than the list that it is drawn from.
    have hlength := (List.subperm_of_subset hnodup hsubset).length_le
    omega
  | steps + 1, below, state, next, id, hnodup, hsubset, hsteps, h, hcompose => by
    rw [composeAfterParents] at hcompose
    split at hcompose
    case isTrue => cases hcompose
    case isFalse hfresh =>
      split at hcompose
      case h_1 hnone =>
        cases hcompose
        exact ⟨.refl h, hnone⟩
      case h_2 spec hspec =>
        obtain ⟨middle, hfold, hcompose⟩ := bind_eq_ok.mp hcompose
        have hbelow : id :: below ⊆ ids :=
          List.cons_subset.mpr ⟨hids (h.waiting hspec).1, hsubset⟩
        obtain ⟨hparents, hsettled⟩ := composeEach_advances
          (composeAfterParents_advances hready hids (List.nodup_cons.mpr ⟨hfresh, hnodup⟩) hbelow
            (by rw [List.length_cons]; omega)) h hfold
        obtain ⟨classes, hclasses, hcompose⟩ := bind_eq_ok.mp hcompose
        cases hcompose
        have hstill : middle.waiting.get? id = some spec :=
          (hparents.still id (by simp)).trans hspec
        refine ⟨⟨hparents.progress.compose hready hstill hsettled hclasses, fun other hmem => ?_,
          fun other hnone => ?_⟩, by rw [Table.get?_erase, if_pos rfl]⟩
        · have hne : other ≠ id := fun heq => hfresh (heq ▸ hmem)
          rw [Table.get?_erase, if_neg hne]
          exact hparents.still other (List.mem_cons_of_mem _ hmem)
        · rw [Table.get?_erase, hparents.settled other hnone, ite_self]

theorem composeAll_progress {entries : List (ClassId × ClassSpec)} {classes : ClassRegistry}
    (hcomposed : start.Composed)
    (hready : ClassSpecs.Ready
      (entries.foldl (fun table entry => table.insert entry.1 entry.2) ∅) start)
    (h : composeAll start entries = .ok classes) :
    ∃ waiting, Hierarchies.Progress start
      (entries.foldl (fun table entry => table.insert entry.1 entry.2) ∅) ⟨classes, waiting⟩ ∧
        ∀ id, waiting.get? id = none := by
  obtain ⟨state, hfold, h⟩ := bind_eq_ok.mp h
  cases h
  generalize hspecs : entries.foldl (fun table entry => table.insert entry.1 entry.2)
    (∅ : ClassSpecs) = specs at hready hfold ⊢
  have hids : ∀ {id spec}, specs.get? id = some spec → id ∈ entries.map Prod.fst := by
    intro id spec hget
    have hmem := Table.mem_of_get? hget
    rw [← hspecs] at hmem
    rcases Table.mem_insertAll hmem with hmem | hmem
    · exact List.mem_map.mpr ⟨_, hmem, rfl⟩
    · cases hmem
  have hstart : Hierarchies.Progress start specs ⟨start, specs⟩ :=
    ⟨hcomposed, rfl, rfl, fun _ => rfl, fun h => ⟨h, rfl⟩, hready.childless, fun hspec hnone => by
      rw [hspec] at hnone
      cases hnone⟩
  rw [← List.foldlM_map] at hfold
  obtain ⟨hadvances, hsettled⟩ := composeEach_advances (composeAfterParents_advances hready hids
    List.nodup_nil (List.nil_subset _) (by simp)) hstart hfold
  refine ⟨state.waiting, hadvances.progress, fun id => ?_⟩
  by_contra hsome
  obtain ⟨spec, hspec⟩ := Option.ne_none_iff_exists'.mp hsome
  exact hsome (hsettled id (hids (hadvances.progress.waiting hspec).1))

end Attire
