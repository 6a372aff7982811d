import Attire.Proofs.Classes.Inheritance
import Mathlib.Algebra.BigOperators.Group.Finset.Basic

namespace Attire

/-! The test for subclasses finds every ancestor. -/

namespace Hierarchy

variable {classes : Hierarchy} {size : Nat} {ancestor cls : ClassId} {stack visited : List ClassId}

/-- The edges that a search may still follow. -/
def openEdges (classes : Hierarchy) (size : Nat) (visited : List ClassId) : Nat :=
  ∑ index ∈ unvisited size visited, (classes.parents ⟨index⟩).length

theorem openEdges_cons (hsize : ∀ cls, classes.parents cls ≠ [] → cls.index < size)
    (hcls : cls ∉ visited) :
    classes.openEdges size visited =
      (classes.parents cls).length + classes.openEdges size (cls :: visited) := by
  have herase : unvisited size (cls :: visited) = (unvisited size visited).erase cls.index := by
    ext index
    have hne : (⟨index⟩ : ClassId) ≠ cls ↔ index ≠ cls.index := by
      obtain ⟨other⟩ := cls
      simp
    simp only [unvisited, Finset.mem_filter, Finset.mem_erase, List.mem_cons, not_or, hne]
    tauto
  unfold openEdges
  rw [herase]
  by_cases hmem : cls.index ∈ unvisited size visited
  · exact (Finset.add_sum_erase _ _ hmem).symm
  · have hnone : classes.parents cls = [] := by
      by_contra hparents
      exact hmem (by simpa [unvisited] using ⟨hsize cls hparents, hcls⟩)
    rw [Finset.erase_eq_of_notMem hmem, hnone, List.length_nil, Nat.zero_add]

theorem search_sound {steps : Nat} (h : classes.search ancestor steps stack visited) :
    ∃ start ∈ stack, Relation.TransGen (fun cls parent => parent ∈ classes.parents cls) start
      ancestor := by
  induction steps generalizing stack visited with
  | zero => simp [search] at h
  | succ steps ih =>
    cases stack with
    | nil => simp [search] at h
    | cons current rest =>
      rw [search] at h
      split at h
      case isTrue =>
        obtain ⟨start, hstart, hpath⟩ := ih h
        exact ⟨start, List.mem_cons_of_mem _ hstart, hpath⟩
      case isFalse =>
        rcases Bool.or_eq_true_iff.mp h with hparent | hsearch
        · exact ⟨current, by simp, .single (of_decide_eq_true hparent)⟩
        · obtain ⟨start, hstart, hpath⟩ := ih hsearch
          rcases List.mem_append.mp hstart with hstart | hstart
          · exact ⟨current, by simp, .head hstart hpath⟩
          · exact ⟨start, List.mem_cons_of_mem _ hstart, hpath⟩

/-- A search that finds nothing has steps enough to expand all that it can reach. -/
theorem search_complete (hsize : ∀ cls, classes.parents cls ≠ [] → cls.index < size) {steps : Nat}
    (hsteps : stack.length + classes.openEdges size visited ≤ steps)
    (hvisited : ∀ cls ∈ visited, ancestor ∉ classes.parents cls ∧
      classes.parents cls ⊆ visited ++ stack)
    (h : classes.search ancestor steps stack visited = false) :
    ∃ closed, visited ++ stack ⊆ closed ∧
      ∀ cls ∈ closed, ancestor ∉ classes.parents cls ∧ classes.parents cls ⊆ closed := by
  induction steps generalizing stack visited with
  | zero =>
    obtain rfl : stack = [] := List.eq_nil_of_length_eq_zero (by omega)
    exact ⟨visited ++ [], List.Subset.refl _, by simpa using hvisited⟩
  | succ steps ih =>
    cases stack with
    | nil => exact ⟨visited ++ [], List.Subset.refl _, by simpa using hvisited⟩
    | cons current rest =>
      rw [search] at h
      rw [List.length_cons] at hsteps
      split at h
      case isTrue hmem =>
        have hsub : visited ++ current :: rest ⊆ visited ++ rest := by
          intro cls hcls
          simp only [List.mem_append, List.mem_cons] at hcls ⊢
          rcases hcls with hcls | rfl | hcls
          · exact .inl hcls
          · exact .inl hmem
          · exact .inr hcls
        obtain ⟨closed, hclosed, hrest⟩ := ih (by omega)
          (fun cls hcls => ⟨(hvisited cls hcls).1, List.Subset.trans (hvisited cls hcls).2 hsub⟩) h
        exact ⟨closed, List.Subset.trans hsub hclosed, hrest⟩
      case isFalse hmem =>
        obtain ⟨hparent, hsearch⟩ := Bool.or_eq_false_iff.mp h
        have hsub : visited ++ current :: rest ⊆
            (current :: visited) ++ (classes.parents current ++ rest) := by
          intro cls hcls
          simp only [List.mem_append, List.mem_cons] at hcls ⊢
          tauto
        have hcurrent : ∀ cls ∈ current :: visited, ancestor ∉ classes.parents cls ∧
            classes.parents cls ⊆ (current :: visited) ++ (classes.parents current ++ rest) := by
          intro cls hcls
          rcases List.mem_cons.mp hcls with rfl | hcls
          · refine ⟨of_decide_eq_false hparent, fun parent hmem => ?_⟩
            simp [hmem]
          · exact ⟨(hvisited cls hcls).1, List.Subset.trans (hvisited cls hcls).2 hsub⟩
        rw [openEdges_cons hsize hmem] at hsteps
        obtain ⟨closed, hclosed, hrest⟩ :=
          ih (by rw [List.length_append]; omega) hcurrent hsearch
        exact ⟨closed, List.Subset.trans hsub hclosed, hrest⟩

/-- The class is the ancestor or inherits from it. -/
def Inherits (classes : Hierarchy) : ClassId → ClassId → Prop :=
  Relation.ReflTransGen fun cls parent => parent ∈ classes.parents cls

/-- No class inherits from itself. -/
def Acyclic (classes : Hierarchy) : Prop :=
  ∀ cls, ¬Relation.TransGen (fun cls parent => parent ∈ classes.parents cls) cls cls

theorem acyclic_of_rank (rank : ClassId → Nat)
    (h : ∀ {cls parent}, parent ∈ classes.parents cls → rank parent < rank cls) :
    classes.Acyclic := by
  have hless : ∀ {cls ancestor}, Relation.TransGen (fun cls parent => parent ∈ classes.parents cls)
      cls ancestor → rank ancestor < rank cls := by
    intro cls ancestor hpath
    induction hpath with
    | single hparent => exact h hparent
    | tail _ hparent ih => exact (h hparent).trans ih
  exact fun cls hcycle => Nat.lt_irrefl _ (hless hcycle)

/-- Only the first `size` classes have parents, and no more than `edges` of them. -/
structure Counts (classes : Hierarchy) (size : Nat) : Prop where
  index_lt (cls : ClassId) : classes.parents cls ≠ [] → cls.index < size
  edges : classes.openEdges size [] ≤ classes.edges

/-- A class is a subclass of what it inherits from, and of nothing else. -/
theorem Counts.isSubclass_iff (h : classes.Counts size) :
    classes.isSubclass cls ancestor ↔ classes.Inherits cls ancestor := by
  unfold isSubclass
  rw [Bool.or_eq_true_iff, decide_eq_true_iff]
  constructor
  · rintro (rfl | hsearch)
    · exact .refl
    · obtain ⟨start, hstart, hpath⟩ := search_sound hsearch
      exact List.mem_singleton.mp hstart ▸ hpath.to_reflTransGen
  · intro hpath
    by_contra hnot
    obtain ⟨hne, hsearch⟩ := not_or.mp hnot
    rw [Bool.not_eq_true] at hsearch
    have hsteps : [cls].length + classes.openEdges size [] ≤ classes.edges + 1 := by
      rw [List.length_singleton, Nat.add_comm]
      exact Nat.succ_le_succ h.edges
    obtain ⟨closed, hsub, hclosed⟩ := search_complete h.index_lt hsteps
      (fun _ hmem => (List.not_mem_nil hmem).elim) hsearch
    have hall : ∀ other, classes.Inherits cls other → other ∈ closed := by
      intro other hother
      induction hother with
      | refl => exact hsub (by simp)
      | tail _ hparent ih => exact (hclosed _ ih).2 hparent
    rcases Relation.ReflTransGen.cases_tail hpath with rfl | ⟨middle, hmiddle, hparent⟩
    · exact hne rfl
    · exact (hclosed _ (hall middle hmiddle)).1 hparent

end Hierarchy

namespace ClassRegistry

variable {classes : ClassRegistry} {cls ancestor : ClassId}

theorem openEdges_nil (classes : ClassRegistry) :
    classes.hierarchy.openEdges classes.size [] = classes.edges := by
  have hfold : ∀ list : List ClassDef,
      list.foldl (fun count cls => count + cls.parents.length) 0 =
        ∑ index ∈ Finset.range list.length,
          ((list[index]?.map ClassDef.parents).getD []).length := by
    intro list
    induction list using List.reverseRecOn with
    | nil => rfl
    | append_singleton front last ih =>
      rw [List.foldl_append, ih, List.length_append, List.length_singleton, Finset.sum_range_succ]
      refine congrArg₂ (· + ·) (Finset.sum_congr rfl fun index hmem => ?_) (by simp)
      rw [List.getElem?_append_left (Finset.mem_range.mp hmem)]
  unfold edges Hierarchy.openEdges
  rw [← Array.foldl_toList, hfold]
  refine Finset.sum_congr (by simp [unvisited, size]) fun index _ => ?_
  simp only [hierarchy, ClassRegistry.parents, get?, Array.getElem?_toList]
  cases classes.classes[index]? <;> rfl

theorem hierarchy_counts (classes : ClassRegistry) :
    classes.hierarchy.Counts classes.size where
  index_lt _ := index_lt_of_parents
  edges := (openEdges_nil classes).le

/-- A class is a subclass of what it inherits from, and of nothing else. -/
theorem isSubclass_iff : classes.isSubclass cls ancestor ↔ classes.Inherits cls ancestor :=
  classes.hierarchy_counts.isSubclass_iff

end ClassRegistry

end Attire
