import Attire.Proofs.Classes.Inheritance

namespace Attire

/-! The walk from classes up to their ancestors, without a bound on its depth.  A derivation of a walk
is finite, so a walk that has one ends. -/

/-- A walk up from some classes.  A class that was entered before is passed over; any other one is
listed once its parents are done. -/
inductive Ascent (parents : ClassId → List ClassId) :
    List ClassId → List ClassId × List ClassId → List ClassId × List ClassId → Prop
  | done {state : List ClassId × List ClassId} : Ascent parents [] state state
  | skip {cls : ClassId} {rest : List ClassId} {state after : List ClassId × List ClassId} :
      cls ∈ state.1 → Ascent parents rest state after → Ascent parents (cls :: rest) state after
  | enter {cls : ClassId} {rest seen listed seen' listed' : List ClassId}
      {after : List ClassId × List ClassId} :
      cls ∉ seen → Ascent parents (parents cls) (cls :: seen, listed) (seen', listed') →
      Ascent parents rest (seen', listed' ++ [cls]) after →
      Ascent parents (cls :: rest) (seen, listed) after

namespace Ascent

variable {parents : ClassId → List ClassId} {starts more : List ClassId}
variable {before middle after other : List ClassId × List ClassId}

theorem append (hfirst : Ascent parents starts before middle)
    (hrest : Ascent parents more middle after) : Ascent parents (starts ++ more) before after := by
  induction hfirst with
  | done => exact hrest
  | skip hseen _ ih => exact .skip hseen (ih hrest)
  | enter hfresh hparents _ _ ih => exact .enter hfresh hparents (ih hrest)

/-- A walk ends in one way only. -/
theorem unique (h : Ascent parents starts before after) (h' : Ascent parents starts before other) :
    after = other := by
  induction h generalizing other with
  | done =>
    cases h'
    rfl
  | skip hseen _ ih =>
    cases h' with
    | skip _ hrest => exact ih hrest
    | enter hfresh => exact absurd hseen hfresh
  | enter hfresh _ _ ihparents ihrest =>
    cases h' with
    | skip hseen => exact absurd hseen hfresh
    | enter _ hparents hrest =>
      cases ihparents hparents
      exact ihrest hrest

theorem seen (h : Ascent parents starts before after) : before.1 ⊆ after.1 := by
  induction h with
  | done => exact List.Subset.refl _
  | skip _ _ ih => exact ih
  | enter _ _ _ ihparents ihrest =>
    exact List.Subset.trans (List.subset_cons_self _ _) (List.Subset.trans ihparents ihrest)

/-- What is listed once keeps its place. -/
theorem listed_grows (h : Ascent parents starts before after) : before.2 <+: after.2 := by
  induction h with
  | done => exact List.prefix_refl _
  | skip _ _ ih => exact ih
  | enter _ _ _ ihparents ihrest => exact ihparents.trans ((List.prefix_append _ _).trans ihrest)

/-- Nothing is listed that was entered before the walk. -/
theorem fresh (h : Ascent parents starts before after) :
    ∀ cls ∈ after.2, cls ∈ before.2 ∨ cls ∉ before.1 := by
  induction h with
  | done => exact fun _ hmem => .inl hmem
  | skip _ _ ih => exact ih
  | enter hfresh hparents _ ihparents ihrest =>
    intro cls hmem
    rcases ihrest cls hmem with hmem | hnew
    · rcases List.mem_append.mp hmem with hmem | hmem
      · exact (ihparents cls hmem).imp_right fun hnew hseen => hnew (List.mem_cons_of_mem _ hseen)
      · exact .inr (List.mem_singleton.mp hmem ▸ hfresh)
    · exact .inr fun hseen => hnew (hparents.seen (List.mem_cons_of_mem _ hseen))

/-- A class is listed once at most, also where parents form a cycle. -/
theorem nodup (h : Ascent parents starts before after) (hlisted : before.2 ⊆ before.1)
    (hnodup : before.2.Nodup) : after.2 ⊆ after.1 ∧ after.2.Nodup := by
  induction h with
  | done => exact ⟨hlisted, hnodup⟩
  | skip _ _ ih => exact ih hlisted hnodup
  | @enter cls rest seen listed seen' listed' after hfresh hparents _ ihparents ihrest =>
    obtain ⟨hlisted', hnodup'⟩ :=
      ihparents (List.Subset.trans hlisted (List.subset_cons_self _ _)) hnodup
    have hcls : cls ∈ seen' := hparents.seen (List.mem_cons_self ..)
    have hnew : cls ∉ listed' := by
      intro hmem
      rcases hparents.fresh cls hmem with hold | hunseen
      · exact hfresh (hlisted hold)
      · exact hunseen (List.mem_cons_self ..)
    apply ihrest
    · exact List.append_subset.mpr ⟨hlisted', List.cons_subset.mpr ⟨hcls, List.nil_subset _⟩⟩
    · exact List.nodup_append.mpr ⟨hnodup', List.nodup_singleton cls, fun other hmem last hlast heq =>
        hnew (List.mem_singleton.mp hlast ▸ heq ▸ hmem)⟩

end Ascent

section

variable {parents : ClassId → List ClassId} {size : Nat}

theorem visitAll_ascends {steps : Nat}
    (hvisit : ∀ cls state, (unvisited size state.1).card < steps →
      Ascent parents [cls] state (visitClass parents steps cls state)) :
    ∀ (starts : List ClassId) (state : List ClassId × List ClassId),
      (starts ≠ [] → (unvisited size state.1).card < steps) →
      Ascent parents starts state
        (starts.foldl (fun state cls => visitClass parents steps cls state) state)
  | [], _, _ => .done
  | start :: rest, state, hsteps => by
    have hfirst := hvisit start state (hsteps (by simp))
    refine hfirst.append (visitAll_ascends hvisit rest _ fun _ => ?_)
    exact (Finset.card_le_card (unvisited_mono hfirst.seen)).trans_lt (hsteps (by simp))

/-- A visit with steps enough is the walk itself. -/
theorem visitClass_ascends (hsize : ∀ cls, parents cls ≠ [] → cls.index < size) :
    ∀ (steps : Nat) (cls : ClassId) (state : List ClassId × List ClassId),
      (unvisited size state.1).card < steps →
      Ascent parents [cls] state (visitClass parents steps cls state)
  | steps + 1, cls, (seen, listed), hsteps => by
    by_cases hseen : cls ∈ seen
    · simp only [visitClass, if_pos hseen]
      exact .skip hseen .done
    · have hparents : parents cls ≠ [] → (unvisited size (cls :: seen)).card < steps := by
        intro hparents
        have hlt := unvisited_cons_lt (hsize cls hparents) hseen
        dsimp only at hsteps
        omega
      have hall := visitAll_ascends (visitClass_ascends hsize steps) (parents cls)
        (cls :: seen, listed) hparents
      simp only [visitClass, if_neg hseen]
      exact .enter hseen hall .done

end

namespace ClassRegistry

variable {classes : ClassRegistry}

theorem ascends (classes : ClassRegistry) (starts : List ClassId)
    (state : List ClassId × List ClassId) :
    Ascent classes.parents starts state
      (starts.foldl (fun state cls => visitClass classes.parents (classes.size + 1) cls state)
        state) :=
  visitAll_ascends (visitClass_ascends (fun _ => index_lt_of_parents) _) starts state
    fun _ => unvisited_lt _ _

theorem nodup_manifest (classes : ClassRegistry) (worn : List ClassId) :
    (classes.manifest worn).Nodup :=
  ((classes.ascends worn ([], [])).nodup (List.nil_subset _) List.nodup_nil).2

theorem manifest_grows (classes : ClassRegistry) (worn more : List ClassId) :
    classes.manifest worn <+: classes.manifest (worn ++ more) := by
  unfold manifest
  rw [List.foldl_append]
  exact (classes.ascends more _).listed_grows

end ClassRegistry

end Attire
