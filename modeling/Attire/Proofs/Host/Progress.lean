import Attire.Proofs.Host.Effects
import Attire.Proofs.Runs.Endings
import Attire.Proofs.Runs.Loopless

namespace Attire

open Machine Workspace

/-! Programs run into nothing but the limit of nested calls. -/

/-- What starts programs: their classes are there, and their values were made by the machine.  The
routine of a super call is one that some class has. -/
inductive Machine.Starts (machine : Machine) : {α : Type} → Run α → Prop
  | instantiate (steps : Nat) {cls : ClassId} : machine.classes.contains cls →
      Starts machine (instantiate steps cls)
  | extend (steps : Nat) {ref : Ref} {cls : ClassId} : machine.classes.contains cls →
      machine.Knows (.object ref) → Starts machine (extend steps ref cls)
  | retract (steps : Nat) {ref : Ref} (cls : ClassId) : machine.Knows (.object ref) →
      Starts machine (retract steps ref cls)
  | enforce (steps : Nat) {stamp : Nat} {batch : List Step} :
      machine.Knows (.suggestion stamp batch) → Starts machine (enforce steps batch)
  | dispatch (steps : Nat) {target caller : Value} {args : List Value} (slot : MethodSlot)
      (ret : Ty) : machine.Knows target → machine.Knows caller →
      (∀ arg ∈ args, machine.Knows arg) →
      Starts machine (dispatch steps target slot caller args ret)
  | invoke (steps : Nat) {routine : Routine} {this caller : Value} {args : List Value} :
      machine.classes.Has routine → machine.Knows this → machine.Knows caller →
      (∀ arg ∈ args, machine.Knows arg) → Starts machine (invoke steps routine this caller args)

/-- If the run ends in an error, calls were nested too deeply. -/
def Machine.Proceeds {α : Type} (machine : Machine) (action : Run α) : Prop :=
  Yields action machine (fun _ _ => True) fun halt _ => ∀ error, halt = .error error →
    ∃ limit, error = .callDepthExceeded limit

namespace Workspace

variable {workspace : Workspace}

theorem Sound.proceeds (h : workspace.Sound) {α : Type} {action : Run α}
    {post : Stage → Machine → α → Prop}
    (hsafe : h.full.regime.Safe workspace.stage action workspace.machine post) :
    workspace.machine.Proceeds action :=
  Yields.imp hsafe (fun _ _ _ => trivial) fun _ _ herror error heq => (herror error heq).1

theorem Sound.contained (h : workspace.Sound) {routine : Routine}
    (hroutine : workspace.machine.classes.Has routine) : Instr.AllContained routine.body := by
  rcases hroutine with ⟨slot, cls, found, hfound, hmem⟩ | ⟨cls, found, name, hfound, hmem⟩
  · obtain ⟨source, sig, -, -, hmethod⟩ := h.compiled.body hfound hmem
    obtain ⟨method, checked, name, -, -, -, hcheck, hlower⟩ := hmethod.compiled
    obtain ⟨params, body, -, rfl, hbody⟩ := CheckContext.checkMethod_sound hcheck
    exact lowerMethod_contained hlower rfl hbody
  · obtain ⟨source, own, -, -, hinitializer⟩ := h.compiled.initializer hfound hmem
    obtain ⟨field, checked, name, -, -, -, -, hlower⟩ := hinitializer.compiled
    exact lowerInitializer_contained hlower

/-- Runs of compiled routines end in an answer or exceed the limit of nested calls, and their
bodies end in nothing or in a return. -/
theorem compiled_progress {options : Options} {sources : Sources}
    (h : Reachable options sources workspace) :
    (∀ {α : Type} {action : Run α}, workspace.machine.Starts action →
      workspace.machine.Proceeds action) ∧
    ∀ routine, workspace.machine.classes.Has routine → ∀ steps,
      Exec.Settles (execBlock steps routine.body) := by
  have hsound := h.sound
  have hfits := hsound.full_fits
  have hkeeps := hsound.full.discipline.keeps
  refine ⟨fun hstarts => ?_, fun routine hroutine steps =>
    settles_execBlock steps (hsound.contained hroutine)⟩
  cases hstarts with
  | instantiate steps hcls => exact hsound.proceeds ((hkeeps steps).instantiate hfits hcls)
  | extend steps hcls href => exact hsound.proceeds ((hkeeps steps).extend hfits trivial hcls href)
  | retract steps cls href => exact hsound.proceeds ((hkeeps steps).retract hfits trivial href)
  | enforce steps hbatch =>
    exact hsound.proceeds ((hkeeps steps).enforce hfits trivial
      (Discipline.admits_suggestion.mp hbatch))
  | dispatch steps slot ret htarget hcaller hargs =>
    exact hsound.proceeds ((hkeeps steps).dispatch hfits trivial htarget hcaller hargs)
  | invoke steps hroutine hthis hcaller hargs =>
    exact hsound.proceeds ((hkeeps steps).invoke hfits (hsound.within_of_has hroutine) hthis hcaller
      hargs)

theorem die_progress : ∃ workspace ref routine, Reachable {} diceSources workspace ∧
    workspace.machine.Knows (.object ref) ∧ workspace.machine.classes.Has routine ∧ ∀ steps,
      workspace.machine.Proceeds (dispatch steps (.object ref) rollSig.slot .null [] .num) ∧
      workspace.machine.Proceeds (invoke steps routine (.object ref) .null []) ∧
      Exec.Settles (execBlock steps routine.body) := by
  obtain ⟨workspace, ref, hreachable, href, -, routine, hroutine⟩ := dice_reachable
  have hcaller : workspace.machine.Knows .null := trivial
  have hargs : ∀ arg ∈ ([] : List Value), workspace.machine.Knows arg := nofun
  obtain ⟨hproceeds, hsettles⟩ := compiled_progress hreachable
  exact ⟨workspace, ref, routine, hreachable, href, .inr hroutine, fun steps =>
    ⟨hproceeds (.dispatch steps _ _ href hcaller hargs),
      hproceeds (.invoke steps (.inr hroutine) href hcaller hargs),
      hsettles routine (.inr hroutine) steps⟩⟩

end Workspace

end Attire

namespace Attire

open Machine

/-! Only `while` runs forever. -/

namespace Machine

variable {machine : Machine}

/-- A sound machine comes upon no other routines than those of its registry. -/
theorem Sound.whileFree {classes : ClassRegistry} {outline : Outline}
    (h : machine.Sound classes outline) (hclasses : classes.whileFree) : machine.WhileFree where
  classes := h.registry ▸ hclasses
  tables manifest table htable := by
    rw [MethodTable.whileFree, h.tables.methods htable]
    exact ClassRegistry.whileFree_methodsOf hclasses manifest
  heap := by
    refine Heap.whileFree_iff.mpr fun cell hmem => ?_
    have hcell := h.entities cell hmem
    cases hentity : cell.entity with
    | object object =>
      show object.table.methods.whileFree
      rw [(hcell.object hentity).table]
      exact ClassRegistry.whileFree_methodsOf hclasses object.manifest
    | array | map | set => rfl

/-- Without `while` every operation ends, in an answer or in an error of the program, whatever is on
the heap and however deep calls may be nested.  The machine after an answer is again one without
`while`, with the same limit and at the same depth. -/
theorem only_while_runs_forever (h : machine.WhileFree) :
    let ends {α : Type} (run : Nat → Run α) : Prop :=
      Halts run machine fun _ after => after.LooplessAt machine.callLimit machine.depth
    (∀ routine this caller args, routine.whileFree →
      ends fun steps => invoke steps routine this caller args) ∧
    (∀ cls, ends fun steps => instantiate steps cls) ∧
    (∀ ref cls, ends fun steps => extend steps ref cls) ∧
    (∀ ref cls, ends fun steps => retract steps ref cls) ∧
    ∀ batch, ends fun steps => enforce steps batch := by
  have hloopless : machine.LooplessAt machine.callLimit machine.depth := ⟨h, rfl, rfl⟩
  have hcalls : CallsEnd machine.callLimit machine.depth := callsEnd machine.depth
  refine ⟨fun routine this caller args hroutine => ?_, fun cls => ?_, fun ref cls => ?_,
    fun ref cls => ?_, fun batch => ?_⟩
  · exact hcalls routine hroutine this caller args machine hloopless
  · exact ends_instantiate hcalls cls machine hloopless
  · exact ends_extend hcalls ref cls machine hloopless
  · exact ends_retract hcalls ref cls machine hloopless
  · exact ends_enforce hcalls batch machine hloopless

end Machine

namespace Workspace

set_option maxRecDepth 100000 in
theorem first_die_whileFree :
    (firstObject? diceSources diceTree 9 ⟨0⟩).map (fun (_, after) => after.classes.whileFree) =
      some true := by
  cbv

/-- A die gets its fields and loses them again. -/
theorem die_ends : ∃ workspace ref, Reachable {} diceSources workspace ∧
    workspace.machine.WhileFree ∧
    Halts (fun steps => Machine.instantiate steps ⟨0⟩) workspace.machine
      (fun _ after => after.WhileFree) ∧
    Halts (fun steps => Machine.retract steps ref ⟨0⟩) workspace.machine
      (fun _ after => after.WhileFree) := by
  obtain ⟨⟨ref, after⟩, hdie, hclasses⟩ := Option.map_eq_some_iff.mp first_die_whileFree
  obtain ⟨workspace, hreachable, rfl⟩ := reachable_firstObject rfl dice_tree rfl hdie
  have hfree := hreachable.sound.running.whileFree hclasses
  obtain ⟨-, hinstantiate, -, hretract, -⟩ := only_while_runs_forever hfree
  exact ⟨workspace, ref, hreachable, hfree, (hinstantiate ⟨0⟩).imp fun _ _ h => h.whileFree,
    (hretract ref ⟨0⟩).imp fun _ _ h => h.whileFree⟩

end Workspace

end Attire
