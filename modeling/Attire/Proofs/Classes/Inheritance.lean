import Attire.Class.Manifest
import Mathlib.Data.Finset.Card
import Mathlib.Data.Finset.Filter
import Mathlib.Data.Finset.Range
import Mathlib.Data.List.Forall2
import Mathlib.Logic.Relation

namespace Attire

/-! Manifests hold exactly the ancestors of what is worn. -/

namespace ClassRegistry

/-- The class is the ancestor or inherits from it. -/
def Inherits (classes : ClassRegistry) : ClassId → ClassId → Prop :=
  Relation.ReflTransGen fun cls parent => parent ∈ classes.parents cls

theorem contains_of_mem_parents {classes : ClassRegistry} {cls parent : ClassId}
    (h : parent ∈ classes.parents cls) : classes.contains cls := by
  unfold parents at h
  split at h
  case h_1 found hget =>
    exact decide_eq_true (Array.getElem?_eq_some_iff.mp hget).1
  case h_2 => cases h

end ClassRegistry

section

variable {parents : ClassId → List ClassId} {size : Nat}

/-- The classes that a visit may still enter. -/
def unvisited (size : Nat) (seen : List ClassId) : Finset Nat :=
  (Finset.range size).filter fun index => (⟨index⟩ : ClassId) ∉ seen

theorem unvisited_mono {seen seen' : List ClassId} (hsub : seen ⊆ seen') :
    unvisited size seen' ⊆ unvisited size seen := by
  intro index hmem
  simp only [unvisited, Finset.mem_filter] at hmem ⊢
  exact ⟨hmem.1, fun hseen => hmem.2 (hsub hseen)⟩

theorem unvisited_cons_lt {seen : List ClassId} {cls : ClassId} (hcls : cls.index < size)
    (hfresh : cls ∉ seen) : (unvisited size (cls :: seen)).card < (unvisited size seen).card := by
  refine Finset.card_lt_card ⟨unvisited_mono (List.subset_cons_self _ _), fun hsub => ?_⟩
  have hmem : cls.index ∈ unvisited size seen := by
    simpa [unvisited] using ⟨hcls, hfresh⟩
  simpa [unvisited] using hsub hmem

theorem visitClass_of_mem {cls : ClassId} {state : List ClassId × List ClassId} (h : cls ∈ state.1)
    (parents : ClassId → List ClassId) (steps : Nat) :
    visitClass parents (steps + 1) cls state = state := by
  rw [visitClass, if_pos h]

/-- What a visit from some classes leaves behind: whatever it newly enters it also lists, and it
enters the parents of that. -/
structure Visited (parents : ClassId → List ClassId) (starts : List ClassId)
    (before after : List ClassId × List ClassId) : Prop where
  entered : starts ⊆ after.1
  seen : before.1 ⊆ after.1
  listed : before.2 ⊆ after.2
  fresh : ∀ cls ∈ after.1, cls ∈ before.1 ∨ cls ∈ after.2 ∧ parents cls ⊆ after.1
  origin : ∀ cls ∈ after.2, cls ∈ before.2 ∨ ∃ start ∈ starts,
    Relation.ReflTransGen (fun cls parent => parent ∈ parents cls) start cls

theorem Visited.nil {state : List ClassId × List ClassId} : Visited parents [] state state where
  entered := List.nil_subset _
  seen := List.Subset.refl _
  listed := List.Subset.refl _
  fresh _ hmem := .inl hmem
  origin _ hmem := .inl hmem

theorem Visited.cons {before middle after : List ClassId × List ClassId} {start : ClassId}
    {starts : List ClassId} (hfirst : Visited parents [start] before middle)
    (hrest : Visited parents starts middle after) :
    Visited parents (start :: starts) before after where
  entered := List.cons_subset.mpr ⟨hrest.seen (hfirst.entered (by simp)), hrest.entered⟩
  seen := List.Subset.trans hfirst.seen hrest.seen
  listed := List.Subset.trans hfirst.listed hrest.listed
  fresh cls hmem := by
    rcases hrest.fresh cls hmem with hmem | hdone
    · rcases hfirst.fresh cls hmem with hmem | ⟨hlisted, hparents⟩
      · exact .inl hmem
      · exact .inr ⟨hrest.listed hlisted, List.Subset.trans hparents hrest.seen⟩
    · exact .inr hdone
  origin cls hmem := by
    rcases hrest.origin cls hmem with hmem | ⟨other, hother, hpath⟩
    · rcases hfirst.origin cls hmem with hmem | ⟨other, hother, hpath⟩
      · exact .inl hmem
      · rw [List.mem_singleton] at hother
        exact .inr ⟨start, by simp, hother ▸ hpath⟩
    · exact .inr ⟨other, List.mem_cons_of_mem _ hother, hpath⟩

theorem visitAll_visited {steps : Nat}
    (hvisit : ∀ cls state, (unvisited size state.1).card < steps →
      Visited parents [cls] state (visitClass parents steps cls state)) :
    ∀ (starts : List ClassId) (state : List ClassId × List ClassId),
      (starts ≠ [] → (unvisited size state.1).card < steps) →
      Visited parents starts state
        (starts.foldl (fun state cls => visitClass parents steps cls state) state)
  | [], _, _ => .nil
  | start :: rest, state, hsteps => by
    have hfirst := hvisit start state (hsteps (by simp))
    refine hfirst.cons (visitAll_visited hvisit rest _ fun _ => ?_)
    exact (Finset.card_le_card (unvisited_mono hfirst.seen)).trans_lt (hsteps (by simp))

/-- A visit has steps enough if there are more of them than classes that it may enter. -/
theorem visitClass_visited (hsize : ∀ cls, parents cls ≠ [] → cls.index < size) :
    ∀ (steps : Nat) (cls : ClassId) (state : List ClassId × List ClassId),
      (unvisited size state.1).card < steps →
      Visited parents [cls] state (visitClass parents steps cls state)
  | steps + 1, cls, (seen, listed), hsteps => by
    by_cases hseen : cls ∈ seen
    · simp only [visitClass, if_pos hseen]
      exact {
        entered := by simpa using hseen
        seen := List.Subset.refl _
        listed := List.Subset.refl _
        fresh := fun _ hmem => .inl hmem
        origin := fun _ hmem => .inl hmem }
    · -- Entering the class leaves one less to enter, so the steps that are left are enough.
      have hall := visitAll_visited (visitClass_visited hsize steps) (parents cls)
        (cls :: seen, listed) fun hparents => by
          have hlt := unvisited_cons_lt (hsize cls hparents) hseen
          dsimp only at hsteps ⊢
          omega
      simp only [visitClass, if_neg hseen]
      generalize (parents cls).foldl (fun state parent => visitClass parents steps parent state)
        (cls :: seen, listed) = result at hall
      obtain ⟨seen', listed'⟩ := result
      refine {
        entered := by simpa using hall.seen (List.mem_cons_self ..)
        seen := List.Subset.trans (List.subset_cons_self _ _) hall.seen
        listed := fun _ hmem => List.mem_append_left _ (hall.listed hmem)
        fresh := fun other hmem => ?_
        origin := fun other hmem => ?_ }
      · rcases hall.fresh other hmem with hmem | ⟨hlisted, hparents⟩
        · rcases List.mem_cons.mp hmem with rfl | hmem
          · exact .inr ⟨by simp, hall.entered⟩
          · exact .inl hmem
        · exact .inr ⟨List.mem_append_left _ hlisted, hparents⟩
      · rcases List.mem_append.mp hmem with hmem | hmem
        · rcases hall.origin other hmem with hmem | ⟨parent, hparent, hpath⟩
          · exact .inl hmem
          · exact .inr ⟨cls, by simp, .head hparent hpath⟩
        · rw [List.mem_singleton] at hmem
          exact .inr ⟨cls, by simp, hmem ▸ .refl⟩

/-! Visits along two parent graphs that correspond. -/

section

variable {parents' : ClassId → List ClassId} {size' : Nat} {related : ClassId → ClassId → Prop}

theorem mem_iff_of_related (hunique : ∀ a b a' b', related a b → related a' b' → (a = a' ↔ b = b'))
    {cls cls' : ClassId} (hcls : related cls cls') {seen seen' : List ClassId}
    (hseen : List.Forall₂ related seen seen') : cls ∈ seen ↔ cls' ∈ seen' := by
  induction hseen with
  | nil => simp
  | cons hfirst _ ih => rw [List.mem_cons, List.mem_cons, ih, hunique _ _ _ _ hcls hfirst]

/-- The two states of a pair of visits. -/
structure Parallel (related : ClassId → ClassId → Prop) (left right : List ClassId × List ClassId) :
    Prop where
  seen : List.Forall₂ related left.1 right.1
  listed : List.Forall₂ related left.2 right.2

theorem visitAll_parallel {steps steps' : Nat}
    (hsize : ∀ cls, parents cls ≠ [] → cls.index < size)
    (hsize' : ∀ cls, parents' cls ≠ [] → cls.index < size')
    (hvisit : ∀ cls cls' state state', (unvisited size state.1).card < steps →
      (unvisited size' state'.1).card < steps' → related cls cls' →
      Parallel related state state' →
      Parallel related (visitClass parents steps cls state)
        (visitClass parents' steps' cls' state')) :
    ∀ {starts starts' : List ClassId}, List.Forall₂ related starts starts' →
      ∀ {state state' : List ClassId × List ClassId},
        (starts ≠ [] → (unvisited size state.1).card < steps) →
        (starts' ≠ [] → (unvisited size' state'.1).card < steps') →
        Parallel related state state' →
        Parallel related
          (starts.foldl (fun state cls => visitClass parents steps cls state) state)
          (starts'.foldl (fun state cls => visitClass parents' steps' cls state) state')
  | _, _, .nil, _, _, _, _, h => h
  | start :: _, start' :: _, .cons hfirst hrest, state, state', hsteps, hsteps', h => by
    have hseen := (visitClass_visited hsize steps start state (hsteps (by simp))).seen
    have hseen' := (visitClass_visited hsize' steps' start' state' (hsteps' (by simp))).seen
    refine visitAll_parallel hsize hsize' hvisit hrest (fun _ => ?_) (fun _ => ?_)
      (hvisit _ _ _ _ (hsteps (by simp)) (hsteps' (by simp)) hfirst h)
    · exact (Finset.card_le_card (unvisited_mono hseen)).trans_lt (hsteps (by simp))
    · exact (Finset.card_le_card (unvisited_mono hseen')).trans_lt (hsteps' (by simp))

theorem visitClass_parallel (hsize : ∀ cls, parents cls ≠ [] → cls.index < size)
    (hsize' : ∀ cls, parents' cls ≠ [] → cls.index < size')
    (hunique : ∀ a b a' b', related a b → related a' b' → (a = a' ↔ b = b'))
    (hparents : ∀ a b, related a b → List.Forall₂ related (parents a) (parents' b)) :
    ∀ (steps steps' : Nat) (cls cls' : ClassId) (state state' : List ClassId × List ClassId),
      (unvisited size state.1).card < steps → (unvisited size' state'.1).card < steps' →
      related cls cls' → Parallel related state state' →
      Parallel related (visitClass parents steps cls state)
        (visitClass parents' steps' cls' state')
  | steps + 1, steps' + 1, cls, cls', (seen, listed), (seen', listed'), hsteps, hsteps', hcls,
      h => by
    have hmem : cls ∈ seen ↔ cls' ∈ seen' := mem_iff_of_related hunique hcls h.seen
    by_cases hseen : cls ∈ seen
    · simp only [visitClass, if_pos hseen, if_pos (hmem.mp hseen)]
      exact h
    · have hseen' : cls' ∉ seen' := fun hmem' => hseen (hmem.mpr hmem')
      have hall := visitAll_parallel hsize hsize'
        (visitClass_parallel hsize hsize' hunique hparents steps steps') (hparents cls cls' hcls)
        (fun hne => by
          have hlt := unvisited_cons_lt (hsize cls hne) hseen
          dsimp only at hsteps ⊢
          omega)
        (fun hne => by
          have hlt := unvisited_cons_lt (hsize' cls' hne) hseen'
          dsimp only at hsteps' ⊢
          omega)
        (⟨.cons hcls h.seen, h.listed⟩ :
          Parallel related (cls :: seen, listed) (cls' :: seen', listed'))
      simp only [visitClass, if_neg hseen, if_neg hseen']
      exact ⟨hall.seen, List.rel_append hall.listed (.cons hcls .nil)⟩

end

end

namespace ClassRegistry

variable {classes next : ClassRegistry} {worn worn' : List ClassId} {cls ancestor : ClassId}

/-- The classes entered and the classes listed from what is worn. -/
def visits (classes : ClassRegistry) (worn : List ClassId) : List ClassId × List ClassId :=
  worn.foldl (fun state cls => visitClass classes.parents (classes.size + 1) cls state) ([], [])

theorem index_lt_of_parents (h : classes.parents cls ≠ []) : cls.index < classes.size := by
  obtain ⟨parent, hparent⟩ := List.exists_mem_of_ne_nil _ h
  exact of_decide_eq_true (contains_of_mem_parents hparent)

theorem unvisited_lt (size : Nat) (seen : List ClassId) : (unvisited size seen).card < size + 1 := by
  calc (unvisited size seen).card ≤ (Finset.range size).card := Finset.card_filter_le _ _
    _ < size + 1 := by simp

theorem visits_visited (classes : ClassRegistry) (worn : List ClassId) :
    Visited classes.parents worn ([], []) (classes.visits worn) :=
  visitAll_visited (visitClass_visited (fun _ => index_lt_of_parents) _) worn ([], [])
    fun _ => unvisited_lt _ _

theorem mem_visits (hstart : cls ∈ worn) (hpath : classes.Inherits cls ancestor) :
    ancestor ∈ (classes.visits worn).1 := by
  have hvisited := visits_visited classes worn
  induction hpath with
  | refl => exact hvisited.entered hstart
  | tail _ hparent ih => exact ((hvisited.fresh _ ih).resolve_left (by simp)).2 hparent

theorem mem_manifest :
    cls ∈ classes.manifest worn ↔ ∃ start ∈ worn, classes.Inherits start cls := by
  have hvisited := visits_visited classes worn
  constructor
  · intro hmem
    exact (hvisited.origin cls hmem).resolve_left (by simp)
  · rintro ⟨start, hstart, hpath⟩
    exact ((hvisited.fresh cls (mem_visits hstart hpath)).resolve_left (by simp)).1

theorem mem_manifest_of_mem (h : cls ∈ worn) : cls ∈ classes.manifest worn :=
  mem_manifest.mpr ⟨cls, h, .refl⟩

theorem manifest_mono {worn worn' : List ClassId} (h : worn ⊆ worn') :
    classes.manifest worn ⊆ classes.manifest worn' := by
  intro cls hmem
  obtain ⟨start, hstart, hpath⟩ := mem_manifest.mp hmem
  exact mem_manifest.mpr ⟨start, h hstart, hpath⟩

theorem contains_of_mem_manifest
    (hparents : ∀ {cls parent}, parent ∈ classes.parents cls → classes.contains parent)
    (hworn : ∀ cls ∈ worn, classes.contains cls) (h : cls ∈ classes.manifest worn) :
    classes.contains cls := by
  obtain ⟨start, hstart, hpath⟩ := mem_manifest.mp h
  cases hpath with
  | refl => exact hworn cls hstart
  | tail _ hparent => exact hparents hparent

/-- Wearing an implied class changes no manifest. -/
theorem manifest_append (h : cls ∈ classes.manifest worn) :
    classes.manifest (worn ++ [cls]) = classes.manifest worn := by
  obtain ⟨start, hstart, hpath⟩ := mem_manifest.mp h
  have hstay := visitClass_of_mem (mem_visits hstart hpath) classes.parents classes.size
  simp only [manifest, List.foldl_append, List.foldl_cons, List.foldl_nil]
  exact congrArg Prod.snd hstay

theorem manifest_parallel {related : ClassId → ClassId → Prop}
    (hunique : ∀ a b a' b', related a b → related a' b' → (a = a' ↔ b = b'))
    (hparents : ∀ a b, related a b → List.Forall₂ related (classes.parents a) (next.parents b))
    (hworn : List.Forall₂ related worn worn') :
    List.Forall₂ related (classes.manifest worn) (next.manifest worn') :=
  (visitAll_parallel (fun _ => index_lt_of_parents) (fun _ => index_lt_of_parents)
    (visitClass_parallel (fun _ => index_lt_of_parents) (fun _ => index_lt_of_parents) hunique
      hparents _ _)
    hworn (fun _ => unvisited_lt _ _) (fun _ => unvisited_lt _ _) ⟨.nil, .nil⟩).listed

end ClassRegistry

end Attire
