import Attire.Proofs.Host.Effects
import Attire.Proofs.Host.Logs
import Attire.Proofs.Host.Moments
import Attire.Proofs.Host.Reachable
import Attire.Proofs.Runs.Passages

namespace Attire

open Machine

/-! The draws of all that hosts and programs do are logged in the order in which they are made. -/

namespace Machine

variable {machine last : Machine} {ref : Ref} {value : Value}

theorem Passes.logs {parts : List Activity.Onset} (h : Passes machine parts last)
    (hparts : ∀ onset ∈ parts, onset.2.Logs (onset.1.events onset.2) (left onset.1.run onset.2)) :
    machine.Logs (parts.flatMap fun onset => onset.1.events onset.2) last := by
  induction parts generalizing machine with
  | nil => exact .still h
  | cons onset rest ih =>
    rw [List.flatMap_cons]
    exact .append (.of_still h.1 (hparts onset List.mem_cons_self))
      (ih h.2 fun other hmem => hparts other (List.mem_cons_of_mem _ hmem))

theorem logs_drawing (hnames : machine.heap.outline.Names (.object ref)) :
    machine.Logs (drawing ref machine) (left (drawRandom ref) machine) := by
  obtain ⟨object, hobject⟩ := Heap.object?_of_names hnames
  have hrun := drawRandom_eq hobject
  rw [left_of_ok hrun, drawing, onward, hrun]
  exact .event (.refl machine) (.drawn hnames hrun) (.still (.refl _))

theorem logs_cloning (hvalue : ∀ ref, value = .object ref → machine.heap.outline.Names value) :
    machine.Logs (cloning value machine) (left (cloneValue value) machine) := by
  cases hclone : cloneValue value machine with
  | error halt after =>
    rw [left_of_error hclone, cloning, onward, hclone]
    exact .still ((calm_cloneValue value).of_error hclone)
  | ok copy after =>
    rw [left_of_ok hclone, cloning, onward, hclone]
    have hstill : machine.Still after := (calm_cloneValue value).of_ok hclone
    dsimp only
    split
    case h_1 source copy =>
      exact .event (.refl machine) (.cloned (hvalue source rfl) hclone) (.still (.refl _))
    case h_2 => exact .still hstill

end Machine

namespace Activity

variable {activity : Activity} {ref : Ref} {machine : Machine}

theorem source?_eq_some (h : activity.source? = some ref) :
    ∃ steps frame, activity = eval (steps + 1) .random frame ∧ frame.this = .object ref := by
  unfold source? at h
  split at h
  case h_2 => cases h
  case h_1 steps frame =>
    split at h
    case h_2 => cases h
    case h_1 hthis =>
      cases h
      exact ⟨steps, frame, rfl, hthis⟩

/-- What draws nothing and clones nothing has events only in its parts. -/
theorem own_eq_nil (hquiet : activity.source? = none)
    (hplain : ∀ steps operand frame, activity ≠ eval (steps + 1) (.clone operand) frame) :
    activity.own machine = [] := by
  unfold own
  split
  case h_1 =>
    split
    case h_1 hthis => simp [source?, hthis] at hquiet
    case h_2 => rfl
  case h_2 => exact absurd rfl (hplain _ _ _)
  case h_3 => rfl

end Activity

namespace Workspace

variable {workspace : Workspace} {stage : Stage} {machine : Machine} {activity : Activity}

theorem Sound.names_of_admits (h : workspace.Sound) (hfits : h.full.Fits stage machine) {ref : Ref}
    (hvalue : h.full.discipline.Admits stage (.object ref)) :
    machine.heap.outline.Names (.object ref) := by
  rw [hfits.sound.layout]
  exact hvalue

theorem Sound.logs_random (h : workspace.Sound) {steps : Nat} {frame : Frame} {ref : Ref}
    (hallows : h.Allows stage machine (.eval (steps + 1) .random frame))
    (hthis : frame.this = .object ref) :
    machine.Logs (drawing ref machine)
      (left (Activity.eval (steps + 1) .random frame).run machine) := by
  obtain ⟨slots, this, caller⟩ := frame
  cases hthis
  obtain ⟨hfits, hframe, -⟩ := hallows
  have hnames := h.names_of_admits hfits hframe.this
  obtain ⟨object, hobject⟩ := Heap.object?_of_names hnames
  have hrun := drawRandom_eq hobject
  have heval : (Machine.eval (steps + 1) .random).run ⟨slots, .object ref, caller⟩ machine =
      (drawRandom ref >>= fun number =>
        pure (.num number, ⟨slots, .object ref, caller⟩)) machine := by
    unfold Machine.eval
    rfl
  have hlogs := logs_drawing hnames
  rw [left_of_ok hrun] at hlogs
  rw [Activity.run, left_discard, left_of_ok (heval.trans (run_bind_ok hrun))]
  exact hlogs

theorem Sound.logs_clone (h : workspace.Sound) {steps : Nat} {operand : Code} {frame : Frame}
    (hallows : h.Allows stage machine (.eval (steps + 1) (.clone operand) frame))
    (hoperand : machine.Logs ((Activity.eval steps operand frame).events machine)
      (left (Activity.eval steps operand frame).run machine)) :
    machine.Logs ((Activity.eval (steps + 1) (.clone operand) frame).events machine)
      (left (Activity.eval (steps + 1) (.clone operand) frame).run machine) := by
  obtain ⟨hfits, hframe, hcode⟩ := hallows
  have hparts : (Activity.eval (steps + 1) (.clone operand) frame).parts machine =
      [(.eval steps operand frame, machine)] := by
    show (_ :: onward _ _ fun _ _ => []) = _
    unfold onward
    cases (Machine.eval steps operand).run frame machine <;> rfl
  have hevents : (Activity.eval (steps + 1) (.clone operand) frame).events machine =
      (Activity.eval steps operand frame).events machine ++
        onward ((Machine.eval steps operand).run frame) machine fun answer machine =>
          cloning answer.1 machine := by
    rw [Activity.events_eq, hparts, List.flatMap_singleton]
    rfl
  have heval : (Machine.eval (steps + 1) (.clone operand)).run frame =
      (Machine.eval steps operand).run frame >>= fun answer =>
        (liftM (cloneValue answer.1) : Exec Value).run answer.2 := by
    simp only [Machine.eval, StateT.run_bind]
  rw [hevents, Activity.run, left_discard, heval]
  rw [Activity.run, left_discard] at hoperand
  cases hrun : (Machine.eval steps operand).run frame machine with
  | error halt after =>
    rw [left_of_error hrun] at hoperand
    rw [left_bind_error hrun, onward, hrun, List.append_nil]
    exact hoperand
  | ok answer after =>
    obtain ⟨value, frame'⟩ := answer
    rw [left_of_ok hrun] at hoperand
    rw [left_bind_ok hrun, onward, hrun]
    have hwithin : operand.Within h.full.permit := hcode
    obtain ⟨next, -, hfits', -, hvalue⟩ :=
      ((h.full.discipline.keeps steps).eval hfits hframe hwithin).of_ok hrun
    rw [left_lift]
    refine .append hoperand (logs_cloning ?_)
    rintro ref rfl
    exact h.names_of_admits hfits' hvalue

/-- Whatever an activity ends in, its events are what happens to random streams. -/
theorem Sound.logs (h : workspace.Sound) (hallows : h.Allows stage machine activity) :
    machine.Logs (activity.events machine) (left activity.run machine) := by
  induction hroom : activity.room using Nat.strong_induction_on
    generalizing activity stage machine with
  | _ room ih =>
    have hparts : ∀ onset ∈ activity.parts machine,
        onset.2.Logs (onset.1.events onset.2) (left onset.1.run onset.2) := by
      intro onset hmem
      have hbegins := Activity.begins_of_mem_parts hmem
      obtain ⟨next, hnext⟩ := h.allows_begins hallows hbegins
      exact ih _ (hroom ▸ hbegins.room_lt) hnext rfl
    cases hsource : activity.source? with
    | some ref =>
      obtain ⟨steps, frame, rfl, hthis⟩ := Activity.source?_eq_some hsource
      have hown : (Activity.eval (steps + 1) .random frame).events machine =
          drawing ref machine := by
        rw [Activity.events_eq, Activity.own, hthis]
        rfl
      rw [hown]
      exact h.logs_random hallows hthis
    | none =>
      by_cases hplain : ∃ steps operand frame, activity = .eval (steps + 1) (.clone operand) frame
      case neg =>
        simp only [not_exists] at hplain
        rw [Activity.events_eq, Activity.own_eq_nil hsource hplain, List.append_nil]
        exact Passes.logs (Activity.makes_parts hsource machine) hparts
      case pos =>
        obtain ⟨steps, operand, frame, rfl⟩ := hplain
        exact h.logs_clone hallows (hparts _ List.mem_cons_self)

end Workspace

/-- What hosts do without drawing a number, making a copy or running a program. -/
inductive Machine.Quiet : {α : Type} → Run α → Prop
  | advanceTick : Quiet advanceTick
  | mint : Quiet mint
  | defaultValue (constructed : Bool) (ty : Ty) : Quiet (defaultValue constructed ty)
  | newArray (items : Array Value) : Quiet (newArray items)
  | newMap : Quiet newMap
  | newSet : Quiet newSet
  | newSuggestion (steps : List Step) : Quiet (newSuggestion steps)
  | replaceItems (ref : Ref) (items : Array Value) :
      Quiet (onHeap fun heap => heap.modifyArray ref fun _ => items)
  | putElement (container index value : Value) (kind : IndexKind) :
      Quiet (onHeap fun heap => heap.putElement container kind index value)
  | addElement (container value : Value) :
      Quiet (onHeap fun heap => heap.addElement container value)
  | removeElement (container : Value) (key : MapKey) :
      Quiet (onHeap fun heap => heap.removeElement container key)

theorem Machine.Quiet.calm {α : Type} {action : Run α} (h : Quiet action) (machine : Machine) :
    Calm action machine := by
  cases h with
  | advanceTick => exact Still.of_heap rfl (Nat.le_succ machine.tick)
  | mint => exact Still.of_heap rfl (le_refl machine.tick)
  | defaultValue constructed ty => exact calm_defaultValue constructed ty machine
  | newArray items => exact calm_newArray items
  | newMap => exact calm_newMap
  | newSet => exact calm_newSet
  | newSuggestion steps => exact calm_newSuggestion steps
  | replaceItems => exact calm_onHeap (Heap.ids_modifyArray ..) (Heap.stream_modifyArray ..)
  | putElement => exact calm_onHeap Heap.ids_putElement Heap.stream_putElement
  | addElement => exact calm_onHeap Heap.ids_addElement Heap.stream_addElement
  | removeElement => exact calm_onHeap Heap.ids_removeElement Heap.stream_removeElement

namespace Workspace

/-- Workspaces that hosts bring about, with all draws and clones on the way there.  Hosts draw from
objects that there are. -/
inductive Recorded (options : Options) (sources : Sources) : List Event → Workspace → Prop
  | start : Recorded options sources [] (ofSources options sources)
  | imported {log : List Event} {workspace next : Workspace} {url : String} {id : ModuleId} :
      Recorded options sources log workspace → importModule url workspace = .ok id next →
      Recorded options sources log next
  | refused {log : List Event} {workspace next : Workspace} {url : String} {error : ImportError} :
      Recorded options sources log workspace → importModule url workspace = .error error next →
      Recorded options sources log next
  | quiet {log : List Event} {workspace : Workspace} {α : Type} {action : Run α} {answer : α}
      {machine : Machine} : Recorded options sources log workspace →
      workspace.machine.Offers action → Quiet action →
      action workspace.machine = .ok answer machine →
      Recorded options sources log { workspace with machine }
  | drawn {log : List Event} {workspace : Workspace} {ref : Ref} {number : Float}
      {machine : Machine} : Recorded options sources log workspace →
      workspace.machine.Knows (.object ref) →
      drawRandom ref workspace.machine = .ok number machine →
      Recorded options sources (log ++ [.drawn ref workspace.machine.tick number])
        { workspace with machine }
  | cloned {log : List Event} {workspace : Workspace} {value copy : Value} {machine : Machine} :
      Recorded options sources log workspace → workspace.machine.Knows value →
      cloneValue value workspace.machine = .ok copy machine →
      Recorded options sources (log ++ cloning value workspace.machine) { workspace with machine }
  | answered {log : List Event} {workspace : Workspace} {activity : Activity} {machine : Machine} :
      Recorded options sources log workspace → workspace.machine.Launches activity →
      activity.run workspace.machine = .ok ⟨⟩ machine →
      Recorded options sources (log ++ activity.events workspace.machine)
        { workspace with machine }
  | failed {log : List Event} {workspace : Workspace} {activity : Activity} {error : RuntimeError}
      {machine : Machine} :
      Recorded options sources log workspace → workspace.machine.Launches activity →
      activity.run workspace.machine = .error (.error error) machine →
      Recorded options sources (log ++ activity.events workspace.machine)
        { workspace with machine }

variable {options : Options} {sources : Sources} {workspace : Workspace} {machine : Machine}
variable {activity : Activity} {log : List Event}

theorem eq_ok_of_discard {α : Type} {run : Run α} {after : Machine}
    (h : discard run machine = .ok ⟨⟩ after) : ∃ answer, run machine = .ok answer after := by
  have hmap : EStateM.map (Function.const α PUnit.unit) run machine = .ok ⟨⟩ after := h
  simp only [EStateM.map] at hmap
  split at hmap
  case h_1 answer next hrun =>
    cases hmap
    exact ⟨answer, hrun⟩
  case h_2 => cases hmap

theorem eq_error_of_discard {α : Type} {run : Run α} {after : Machine} {halt : Halt}
    (h : discard run machine = .error halt after) : run machine = .error halt after := by
  have hmap : EStateM.map (Function.const α PUnit.unit) run machine = .error halt after := h
  simp only [EStateM.map] at hmap
  split at hmap
  case h_1 => cases hmap
  case h_2 error next hrun =>
    cases hmap
    exact hrun

/-- What hosts launch is among what they are offered. -/
theorem offers_of_launches (h : machine.Launches activity) :
    ∃ (α : Type) (action : Run α), machine.Offers action ∧ activity.run = discard action := by
  cases activity with
  | instantiate steps cls => exact ⟨_, _, .instantiate steps cls, rfl⟩
  | extend steps ref cls => exact ⟨_, _, .extend steps cls h, rfl⟩
  | retract steps ref cls => exact ⟨_, _, .retract steps cls h, rfl⟩
  | enforce steps batch => exact ⟨_, _, .enforce steps h, rfl⟩
  | invoke steps routine this caller args =>
    obtain ⟨hroutine, hthis, hcaller, hargs⟩ := h
    exact ⟨_, _, .invoke steps hroutine hthis hcaller hargs, rfl⟩
  | dispatch steps target slot caller args ret =>
    obtain ⟨htarget, hcaller, hargs⟩ := h
    exact ⟨_, _, .dispatch steps slot ret htarget hcaller hargs, rfl⟩
  | call steps ref name caller args =>
    obtain ⟨href, hcaller, hargs⟩ := h
    exact ⟨_, _, .call steps name href hcaller hargs, rfl⟩
  | restore steps snapshot => exact ⟨_, _, .restore steps snapshot, rfl⟩
  | _ => exact h.elim

theorem Recorded.reachable (h : Recorded options sources log workspace) :
    Reachable options sources workspace := by
  induction h with
  | start => exact .start
  | imported _ himport ih => exact .imported ih himport
  | refused _ himport ih => exact .refused ih himport
  | quiet _ hoffers _ hrun ih => exact .answered ih hoffers hrun
  | drawn _ _ hrun ih => exact .answered ih (.drawRandom _) hrun
  | cloned _ hknows hrun ih => exact .answered ih (.cloneValue hknows) hrun
  | answered _ hlaunches hrun ih =>
    obtain ⟨α, action, hoffers, hdiscard⟩ := offers_of_launches hlaunches
    rw [hdiscard] at hrun
    obtain ⟨answer, hrun⟩ := eq_ok_of_discard hrun
    exact .answered ih hoffers hrun
  | failed _ hlaunches hrun ih =>
    obtain ⟨α, action, hoffers, hdiscard⟩ := offers_of_launches hlaunches
    rw [hdiscard] at hrun
    exact .failed ih hoffers (eq_error_of_discard hrun)

theorem Sound.logs_launched (h : workspace.Sound)
    (hlaunches : workspace.machine.Launches activity) :
    workspace.machine.Logs (activity.events workspace.machine)
      (left activity.run workspace.machine) :=
  h.logs (h.allows_launched hlaunches)

/-- A record is a log of the way from the new machine. -/
theorem Recorded.logs (h : Recorded options sources log workspace) :
    (ofSources options sources).machine.Logs log workspace.machine := by
  induction h with
  | start => exact .still (.refl _)
  | imported _ himport ih => exact ih.then_still ((importModule_still _ _).of_ok himport)
  | refused _ himport ih => exact ih.then_still ((importModule_still _ _).of_error himport)
  | quiet _ _ hquiet hrun ih => exact ih.then_still ((hquiet.calm _).of_ok hrun)
  | drawn _ hknows hrun ih =>
    exact ih.append (.event (.refl _) (.drawn hknows hrun) (.still (.refl _)))
  | @cloned _ workspace value _ _ _ hknows hrun ih =>
    have hcloning : workspace.machine.Logs (cloning value workspace.machine) _ :=
      logs_cloning fun ref heq => by
        subst heq
        exact hknows
    rw [left_of_ok hrun] at hcloning
    exact ih.append hcloning
  | answered hrecorded hlaunches hrun ih =>
    have hactivity := hrecorded.reachable.sound.logs_launched hlaunches
    rw [left_of_ok hrun] at hactivity
    exact ih.append hactivity
  | failed hrecorded hlaunches hrun ih =>
    have hactivity := hrecorded.reachable.sound.logs_launched hlaunches
    rw [left_of_error hrun] at hactivity
    exact ih.append hactivity

/-- A draw from an object that there is always succeeds. -/
theorem Recorded.draw (h : Recorded options sources log workspace) {ref : Ref}
    (hknows : workspace.machine.Knows (.object ref)) :
    ∃ number machine, machine.tick = workspace.machine.tick ∧ machine.Knows (.object ref) ∧
      Recorded options sources (log ++ [.drawn ref workspace.machine.tick number])
        { workspace with machine } := by
  obtain ⟨object, hobject⟩ := Heap.object?_of_names hknows
  obtain ⟨number, machine, hrun⟩ : ∃ number machine,
      drawRandom ref workspace.machine = .ok number machine := ⟨_, _, drawRandom_eq hobject⟩
  have hreplaces := (h.reachable.sound.keeps_offers (.drawRandom ref)).of_ok hrun
  refine ⟨number, machine, (draws_of_names hknows hrun).tick, ?_, .drawn h hknows hrun⟩
  rw [Machine.Knows, hreplaces.sound.registry]
  exact hknows.mono hreplaces.outline

/-- Random streams are independent.  The events are all that happens to them, in whatever order
draws, ticks, calls, extensions, retractions and copies come, and also in an operation that fails or
never ends.  A number is given by the identifier of the object, the tick and how many draws from
that object in that tick came before; a copy starts a stream of its own. -/
theorem streams_independent (h : Recorded options sources log workspace)
    (hlaunches : workspace.machine.Launches activity) :
    let events := log ++ activity.events workspace.machine
    (ofSources options sources).machine.Logs events (left activity.run workspace.machine) ∧
    (∀ before ref tick number after, events = before ++ .drawn ref tick number :: after →
      let index := before.countP (·.isDraw ref tick)
      number = RandomStream.number ref.id tick index ∧
        RandomStream.numerator (RandomStream.chain ref.id tick index) < 2 ^ 53) ∧
    ∀ before source copy after, events = before ++ .cloned source copy :: after →
      copy ≠ source ∧ ∀ tick number, .drawn copy tick number ∉ before := by
  have hlogs := h.logs.append (h.reachable.sound.logs_launched hlaunches)
  have hstart : (ofSources options sources).machine.Accounts [] := .initial fun _ => rfl
  refine ⟨hlogs, fun before ref tick number after heq => ?_, fun before source copy after heq => ?_⟩
  · rw [heq] at hlogs
    exact ⟨hlogs.number_eq hstart, RandomStream.numerator_lt _⟩
  · rw [heq] at hlogs
    exact hlogs.copy_fresh hstart

/-- Hosts that import a core module and make an object of one of its classes. -/
theorem recorded_firstObject {sources : Sources} {text : String} {tree : ModuleTree}
    {notes : List String × String} {draft : ModuleDraft} {built : Workspace} {steps : Nat}
    {cls : ClassId} {ref : Ref} (hfetch : sources.fetch "weft:core" = .ok text)
    (htree : ModuleTree.ofText? text = some tree) (hnotices : notices "weft:core" tree = .ok notes)
    (hbuild : reached? (build (importBelow sources.size ["weft:core"]) "weft:core" tree)
      (ofSources {} sources) = some (draft, built))
    (hobject : reached? (Machine.instantiate steps cls) built.machine = some (ref, machine)) :
    ∃ workspace, workspace.machine = machine ∧
      Recorded {} sources ((Activity.instantiate steps cls).events built.machine) workspace := by
  obtain ⟨id, next, himport, hmachine⟩ :=
    importModule_eq_ok rfl hfetch htree hnotices (reached?_eq_some.mp hbuild)
  have hrun : (Activity.instantiate steps cls).run next.machine = .ok ⟨⟩ machine := by
    have hinstance := reached?_eq_some.mp hobject
    rw [hmachine]
    show EStateM.map (Function.const _ PUnit.unit) _ _ = _
    simp only [EStateM.map, hinstance]
  refine ⟨{ next with machine }, rfl, ?_⟩
  rw [← hmachine]
  exact .answered (.imported .start himport) trivial hrun

set_option maxRecDepth 100000 in
theorem die_silent :
    ((reached? (build (importBelow diceSources.size ["weft:core"]) "weft:core" diceTree)
      (ofSources {} diceSources)).bind fun (_, built) =>
        (reached? (Machine.instantiate 9 ⟨0⟩) built.machine).map fun (ref, after) =>
          ((Activity.instantiate 9 ⟨0⟩).events built.machine, ref, after.tick,
            after.heap.outline.cells)) =
    some ([], ⟨0, ⟨0⟩⟩, 0, [(⟨0⟩, .object)]) := by
  cbv

/-- Two numbers of a die, and one of the next tick. -/
theorem die_streams : ∃ workspace first second third,
    Recorded {} diceSources
      [.drawn ⟨0, ⟨0⟩⟩ 0 first, .drawn ⟨0, ⟨0⟩⟩ 0 second, .drawn ⟨0, ⟨0⟩⟩ 1 third] workspace ∧
    workspace.machine.Launches (.instantiate 9 ⟨0⟩) ∧ first = RandomStream.number ⟨0⟩ 0 0 ∧
    second = RandomStream.number ⟨0⟩ 0 1 ∧ third = RandomStream.number ⟨0⟩ 1 0 := by
  obtain ⟨⟨draft, built⟩, hbuilt, hmade⟩ := Option.bind_eq_some_iff.mp die_silent
  obtain ⟨⟨ref, made⟩, hinstance, hdie⟩ := Option.map_eq_some_iff.mp hmade
  simp only [Prod.mk.injEq] at hdie
  obtain ⟨hevents, rfl, htick, hcells⟩ := hdie
  obtain ⟨workspace, rfl, hstart⟩ := recorded_firstObject rfl dice_tree rfl hbuilt hinstance
  rw [hevents] at hstart
  have hdie : workspace.machine.Knows (.object ⟨0, ⟨0⟩⟩) := by
    show workspace.machine.heap.outline.cells[0]? = some (⟨0⟩, .object)
    rw [hcells]
    rfl
  obtain ⟨first, machine₁, htick₁, hdie₁, hfirst⟩ := hstart.draw hdie
  obtain ⟨second, machine₂, htick₂, hdie₂, hsecond⟩ := hfirst.draw hdie₁
  obtain ⟨third, machine₃, -, -, hthird⟩ :=
    (Recorded.quiet hsecond .advanceTick .advanceTick rfl).draw hdie₂
  dsimp only at hthird
  rw [htick₂, htick₁, htick] at hthird
  have hlaunches : machine₃.Launches (.instantiate 9 ⟨0⟩) := trivial
  have hstreams := (streams_independent hthird hlaunches).2.1
  refine ⟨_, first, second, third, hthird, hlaunches, ?_, ?_, ?_⟩
  · exact (hstreams [] _ _ _ _ rfl).1
  · exact (hstreams [_] _ _ _ _ rfl).1
  · exact (hstreams [_, _] _ _ _ _ rfl).1

end Workspace

end Attire
