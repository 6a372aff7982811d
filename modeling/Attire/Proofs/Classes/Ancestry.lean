import Attire.Proofs.Classes.Inheritance

namespace Attire

/-! Inheritance without cycles, and manifests that list ancestors first. -/

section

variable {parents : ClassId → List ClassId} {size : Nat} {cls other : ClassId}

/-- Every class stands once, after its parents. -/
def Layered (parents : ClassId → List ClassId) (listed : List ClassId) : Prop :=
  ∀ front cls back, listed = front ++ cls :: back → parents cls ⊆ front ∧ cls ∉ front

namespace Layered

variable {listed front back : List ClassId}

theorem nil : Layered parents [] := by
  intro front cls back h
  simp at h

theorem snoc (h : Layered parents listed) (hparents : parents cls ⊆ listed) (hcls : cls ∉ listed) :
    Layered parents (listed ++ [cls]) := by
  intro front other back heq
  rcases List.eq_nil_or_concat back with rfl | ⟨rest, last, rfl⟩
  · obtain ⟨rfl, hlast⟩ := List.append_inj' heq rfl
    obtain rfl : cls = other := by simpa using hlast
    exact ⟨hparents, hcls⟩
  · have happend : listed ++ [cls] = (front ++ other :: rest) ++ [last] := by simpa using heq
    exact h front other rest (List.append_inj' happend rfl).1

theorem nodup (h : Layered parents listed) : listed.Nodup := by
  induction listed using List.reverseRecOn with
  | nil => exact .nil
  | append_singleton front cls ih =>
    have hfront : Layered parents front := by
      intro before other after heq
      exact h before other (after ++ [cls]) (by simp [heq])
    have hcls : cls ∉ front := (h front cls [] rfl).2
    refine List.nodup_append.mpr ⟨ih hfront, List.nodup_singleton cls, fun other hmem last hlast => ?_⟩
    exact fun heq => hcls (List.mem_singleton.mp hlast ▸ heq ▸ hmem)

theorem ancestor_mem (h : Layered parents (front ++ cls :: back)) {start ancestor : ClassId}
    (hstart : start ∈ front)
    (hpath : Relation.ReflTransGen (fun cls parent => parent ∈ parents cls) start ancestor) :
    ancestor ∈ front := by
  induction hpath with
  | refl => exact hstart
  | @tail middle parent _ hparent ih =>
    obtain ⟨before, after, rfl⟩ := List.append_of_mem ih
    have hbefore := (h before middle (after ++ cls :: back) (by simp)).1 hparent
    exact List.mem_append_left _ hbefore

/-- Descendants stand after their ancestors. -/
theorem descendant_mem (h : Layered parents (front ++ cls :: back))
    (hpath : Relation.TransGen (fun cls parent => parent ∈ parents cls) other cls)
    (hother : other ∈ front ++ cls :: back) : other ∈ back := by
  obtain ⟨hparents, hfresh⟩ := h front cls back rfl
  rcases List.mem_append.mp hother with hfront | hrest
  · exact absurd (h.ancestor_mem hfront hpath.to_reflTransGen) hfresh
  · rcases List.mem_cons.mp hrest with rfl | hback
    · obtain ⟨parent, hparent, hpath⟩ := Relation.TransGen.head'_iff.mp hpath
      exact absurd (h.ancestor_mem (hparents hparent) hpath) hfresh
    · exact hback

/-- What stands before a class is neither the class nor a descendant of it. -/
theorem pairwise (h : Layered parents listed) :
    listed.Pairwise fun a b =>
      a ≠ b ∧ ¬Relation.TransGen (fun cls parent => parent ∈ parents cls) a b := by
  induction listed using List.reverseRecOn with
  | nil => exact .nil
  | append_singleton front cls ih =>
    have hfront : Layered parents front := by
      intro before other after heq
      exact h before other (after ++ [cls]) (by simp [heq])
    have hcls : cls ∉ front := (h front cls [] rfl).2
    refine List.pairwise_append.mpr ⟨ih hfront, List.pairwise_singleton .., ?_⟩
    intro other hother last hlast
    obtain rfl := List.mem_singleton.mp hlast
    exact ⟨fun heq => hcls (heq ▸ hother), fun hpath => hcls (h.ancestor_mem hother hpath.to_reflTransGen)⟩

end Layered

/-- The classes entered by visits under way are those that are not listed yet. -/
structure Visiting (parents : ClassId → List ClassId) (before after : List ClassId × List ClassId) :
    Prop where
  layered : Layered parents after.2
  listed : after.2 ⊆ after.1
  fresh : ∀ cls ∈ after.2, cls ∈ before.2 ∨ cls ∉ before.1
  opened : ∀ cls ∈ after.1, cls ∉ after.2 → cls ∈ before.1

/-- Every class whose visit is under way descends from the class. -/
def Awaited (parents : ClassId → List ClassId) (state : List ClassId × List ClassId)
    (cls : ClassId) : Prop :=
  ∀ under ∈ state.1, under ∉ state.2 →
    Relation.TransGen (fun cls parent => parent ∈ parents cls) under cls

variable {state : List ClassId × List ClassId}

theorem Visiting.refl (hlayered : Layered parents state.2) (hlisted : state.2 ⊆ state.1) :
    Visiting parents state state :=
  ⟨hlayered, hlisted, fun _ hmem => .inl hmem, fun _ hmem _ => hmem⟩

theorem Visiting.trans {before middle after : List ClassId × List ClassId}
    (hseen : before.1 ⊆ middle.1) (hfirst : Visiting parents before middle)
    (hrest : Visiting parents middle after) (hkept : middle.2 ⊆ after.2) :
    Visiting parents before after where
  layered := hrest.layered
  listed := hrest.listed
  fresh cls hmem := by
    rcases hrest.fresh cls hmem with hmem | hnew
    · exact hfirst.fresh cls hmem
    · exact .inr fun hold => hnew (hseen hold)
  opened cls hmem hopen :=
    hfirst.opened cls (hrest.opened cls hmem hopen) fun hlisted => hopen (hkept hlisted)

variable (hsize : ∀ cls, parents cls ≠ [] → cls.index < size)
include hsize

theorem visitAll_visiting {steps : Nat}
    (hvisit : ∀ cls state, (unvisited size state.1).card < steps → Layered parents state.2 →
      state.2 ⊆ state.1 → Awaited parents state cls →
      Visiting parents state (visitClass parents steps cls state)) :
    ∀ (starts : List ClassId) (state : List ClassId × List ClassId),
      (starts ≠ [] → (unvisited size state.1).card < steps) → Layered parents state.2 →
      state.2 ⊆ state.1 → (∀ start ∈ starts, Awaited parents state start) →
      Visiting parents state
        (starts.foldl (fun state cls => visitClass parents steps cls state) state)
  | [], _, _, hlayered, hlisted, _ => .refl hlayered hlisted
  | start :: rest, state, hsteps, hlayered, hlisted, hawaited => by
    have hcard := hsteps (by simp)
    have hvisited := visitClass_visited hsize steps start state hcard
    have hfirst := hvisit start state hcard hlayered hlisted (hawaited start (by simp))
    have hcard' := (Finset.card_le_card (unvisited_mono hvisited.seen)).trans_lt hcard
    have hrest := visitAll_visiting hvisit rest (visitClass parents steps start state)
      (fun _ => hcard') hfirst.layered hfirst.listed fun other hother under hunder hnew =>
        hawaited other (List.mem_cons_of_mem _ hother) under (hfirst.opened under hunder hnew)
          fun hmem => hnew (hvisited.listed hmem)
    have hkept := (visitAll_visited (visitClass_visited hsize steps) rest
      (visitClass parents steps start state) fun _ => hcard').listed
    exact hfirst.trans hvisited.seen hrest hkept

/-- Without cycles, a visit lists the parents of a class before the class. -/
theorem visitClass_visiting
    (hacyclic : ∀ cls, ¬Relation.TransGen (fun cls parent => parent ∈ parents cls) cls cls) :
    ∀ (steps : Nat) (cls : ClassId) (state : List ClassId × List ClassId),
      (unvisited size state.1).card < steps → Layered parents state.2 → state.2 ⊆ state.1 →
      Awaited parents state cls → Visiting parents state (visitClass parents steps cls state)
  | steps + 1, cls, (seen, listed), hsteps, hlayered, hlisted, hawaited => by
    by_cases hseen : cls ∈ seen
    · simp only [visitClass, if_pos hseen]
      exact .refl hlayered hlisted
    · have hcard : parents cls ≠ [] → (unvisited size (cls :: seen)).card < steps := by
        intro hparents
        have hlt := unvisited_cons_lt (hsize cls hparents) hseen
        dsimp only at hsteps
        omega
      -- The class itself is under way while its parents are visited.
      have hparent : ∀ parent ∈ parents cls, Awaited parents (cls :: seen, listed) parent := by
        intro parent hparent under hunder hnew
        rcases List.mem_cons.mp hunder with rfl | hunder
        · exact .single hparent
        · exact (hawaited under hunder hnew).tail hparent
      have hall := visitAll_visiting hsize (visitClass_visiting hacyclic steps) (parents cls)
        (cls :: seen, listed) hcard hlayered
        (List.Subset.trans hlisted (List.subset_cons_self _ _)) hparent
      have hvisited := visitAll_visited (visitClass_visited hsize steps) (parents cls)
        (cls :: seen, listed) hcard
      simp only [visitClass, if_neg hseen]
      generalize (parents cls).foldl (fun state parent => visitClass parents steps parent state)
        (cls :: seen, listed) = result at hall hvisited
      obtain ⟨seen', listed'⟩ := result
      have hparents : parents cls ⊆ listed' := by
        intro parent hmem
        by_contra hnew
        have hunder := hall.opened parent (hvisited.entered hmem) hnew
        exact hacyclic parent (hparent parent hmem parent hunder fun h => hnew (hvisited.listed h))
      have hcls : cls ∉ listed' := by
        intro hmem
        rcases hall.fresh cls hmem with hold | hnew
        · exact hseen (hlisted hold)
        · exact hnew (List.mem_cons_self ..)
      refine ⟨hall.layered.snoc hparents hcls, ?_, fun other hmem => ?_, fun other hmem hnew => ?_⟩
      · refine List.append_subset.mpr ⟨hall.listed, ?_⟩
        simpa using hvisited.seen (List.mem_cons_self ..)
      · rcases List.mem_append.mp hmem with hmem | hmem
        · exact (hall.fresh other hmem).imp id fun h hold => h (List.mem_cons_of_mem _ hold)
        · exact .inr (List.mem_singleton.mp hmem ▸ hseen)
      · rw [List.mem_append, not_or] at hnew
        have hold := hall.opened other hmem hnew.1
        exact (List.mem_cons.mp hold).resolve_left fun heq => hnew.2 (by simp [heq])

end

namespace ClassRegistry

variable {classes next : ClassRegistry} {id cls other ancestor : ClassId}
variable {worn front back : List ClassId}

/-- The class inherits from an ancestor through one parent at least. -/
def Descends (classes : ClassRegistry) : ClassId → ClassId → Prop :=
  Relation.TransGen fun cls parent => parent ∈ classes.parents cls

/-- No class descends from itself. -/
def Acyclic (classes : ClassRegistry) : Prop := ∀ cls, ¬classes.Descends cls cls

theorem Acyclic.of_parents (h : classes.Acyclic)
    (hparents : ∀ cls, next.parents cls ⊆ classes.parents cls) : next.Acyclic :=
  fun cls hpath =>
    h cls (Relation.TransGen.mono (fun cls _ hmem => hparents cls hmem) _ _ hpath)

/-- A class that nothing inherits from yet may be given parents. -/
theorem Acyclic.adopt (h : classes.Acyclic)
    (hothers : ∀ cls, cls ≠ id → next.parents cls = classes.parents cls)
    (hnew : ∀ parent ∈ next.parents id, ¬classes.Inherits parent id) : next.Acyclic := by
  have hold : ∀ {cls}, next.Inherits cls id → classes.Inherits cls id := by
    intro cls hpath
    induction hpath using Relation.ReflTransGen.head_induction_on with
    | refl => exact .refl
    | @head cls parent hparent _ ih =>
      by_cases hcls : cls = id
      · exact hcls ▸ .refl
      · exact .head (hothers cls hcls ▸ hparent) ih
  -- A path is as it was, or goes through a parent of the class.
  have hsplit : ∀ {cls ancestor}, next.Descends cls ancestor → classes.Descends cls ancestor ∨
      ∃ parent ∈ next.parents id, next.Inherits cls id ∧ next.Inherits parent ancestor := by
    intro cls ancestor hpath
    induction hpath with
    | @single parent hparent =>
      by_cases hcls : cls = id
      · exact .inr ⟨parent, hcls ▸ hparent, hcls ▸ .refl, .refl⟩
      · exact .inl (.single (hothers cls hcls ▸ hparent))
    | @tail middle parent hpath hparent ih =>
      by_cases hmiddle : middle = id
      · exact .inr ⟨parent, hmiddle ▸ hparent, hmiddle ▸ hpath.to_reflTransGen, .refl⟩
      · rcases ih with hpath | ⟨first, hfirst, hstart, hend⟩
        · exact .inl (hpath.tail (hothers middle hmiddle ▸ hparent))
        · exact .inr ⟨first, hfirst, hstart, hend.tail hparent⟩
  intro cls hcycle
  rcases hsplit hcycle with hpath | ⟨parent, hparent, hstart, hend⟩
  · exact h cls hpath
  · exact hnew parent hparent (hold (hend.trans hstart))

/-- Manifests list every class once, after its parents. -/
theorem Acyclic.layered (h : classes.Acyclic) (worn : List ClassId) :
    Layered classes.parents (classes.manifest worn) :=
  (visitAll_visiting (fun _ => index_lt_of_parents)
    (visitClass_visiting (fun _ => index_lt_of_parents) h _) worn ([], [])
    (fun _ => unvisited_lt _ _) .nil (List.nil_subset _)
    fun _ _ _ hunder => absurd hunder List.not_mem_nil).layered

end ClassRegistry

end Attire
