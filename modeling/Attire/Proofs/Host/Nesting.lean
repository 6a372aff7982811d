import Attire.Proofs.Host.Reachable
import Attire.Proofs.Import.Moves
import Attire.Proofs.Machine.Depth
import Attire.Proofs.Runs.Refusals

namespace Attire

open Machine

/-! Between the operations of a host no call is under way. -/

namespace Workspace

variable {options : Options} {sources : Sources} {workspace : Workspace}

theorem levels_steady : Steady fun workspace next => workspace.machine.Levels next.machine where
  refl workspace := .refl workspace.machine
  trans := .trans
  registries _ _ _ := ⟨rfl, rfl⟩
  weave _ _ := ⟨rfl, rfl⟩

theorem importModule_levels (url : String) (workspace : Workspace) :
    Yields (importModule url) workspace (fun _ next => workspace.machine.Levels next.machine)
      fun _ next => workspace.machine.Levels next.machine :=
  Steady.bind_get (fun _ => levels_steady.importBelow
    (fun _ url _ tree _ hload _ workspace _ => levels_steady.build hload url tree workspace) _ _ _)
    workspace

theorem Replaces.levels {machine : Machine} (h : workspace.Replaces machine) :
    workspace.machine.Levels machine :=
  ⟨h.depth, h.callLimit⟩

/-- Whatever imports and operations came before, and whatever they ended in, calls are nested as on
a new machine. -/
theorem Reachable.levels (h : Reachable options sources workspace) :
    (ofSources options sources).machine.Levels workspace.machine := by
  induction h with
  | start => exact .refl _
  | imported _ himport ih => exact ih.trans ((importModule_levels _ _).of_ok himport)
  | refused _ himport ih => exact ih.trans ((importModule_levels _ _).of_error himport)
  | answered hreachable hoffers hrun ih =>
    exact ih.trans ((hreachable.sound.keeps_offers hoffers).of_ok hrun).levels
  | failed hreachable hoffers hrun ih =>
    exact ih.trans ((hreachable.sound.keeps_offers hoffers).of_error hrun _ rfl).levels

end Workspace

/-- A call is refused only in the midst of all the calls that are allowed. -/
theorem Activity.Exceeds.full {activity : Activity} {machine : Machine} {limit : Nat}
    (h : activity.Exceeds limit machine) (hdepth : machine.depth ≤ machine.callLimit) :
    limit = machine.callLimit ∧ ∃ part start,
      activity.Comprises machine (machine.callLimit - machine.depth) part start ∧
        part.Refused limit start := by
  obtain ⟨calls, part, start, hcomprises, hrefused⟩ := h.refused
  obtain ⟨hstart, hlimit, hallowed⟩ := hcomprises.level
  have hfull : start.callLimit = limit ∧ limit ≤ start.depth := by
    cases part with
    | invoke => exact hrefused
    | _ => exact hrefused.elim
  have hbound := hallowed hdepth
  obtain rfl : calls = machine.callLimit - machine.depth := by omega
  exact ⟨by omega, part, start, hcomprises, hrefused⟩

namespace Workspace

/-- Whatever an operation ends in, the depth of calls is as before, and all that takes place in its
course keeps to the limit.  A call is refused only in the midst of as many calls as are allowed; on
machines of hosts, which are between operations, these are all that a new machine allows. -/
theorem depth_balanced (activity : Activity) (machine : Machine)
    (hdepth : machine.depth ≤ machine.callLimit) :
    machine.Balances activity.run ∧
    (∀ calls part start, activity.Comprises machine calls part start →
      start.depth = machine.depth + calls ∧ start.depth ≤ machine.callLimit ∧
        start.callLimit = machine.callLimit ∧ start.Balances part.run) ∧
    (∀ limit after, activity.run machine = .error (.error (.callDepthExceeded limit)) after →
      limit = machine.callLimit ∧ ∃ part start,
        activity.Comprises machine (machine.callLimit - machine.depth) part start ∧
          part.Refused limit start) ∧
    ∀ options sources workspace, Reachable options sources workspace →
      (ofSources options sources).machine.Levels workspace.machine ∧
        ∀ limit after,
          activity.run workspace.machine = .error (.error (.callDepthExceeded limit)) after →
            limit = options.maxCallDepth ∧ ∃ part start,
              activity.Comprises workspace.machine options.maxCallDepth part start ∧
                part.Refused limit start := by
  refine ⟨activity.balances machine, fun calls part start hcomprises => ?_,
    fun limit after hrun => Activity.Exceeds.full ⟨after, hrun⟩ hdepth,
    fun options sources workspace hreachable => ?_⟩
  · obtain ⟨hstart, hlimit, hallowed⟩ := hcomprises.level
    exact ⟨hstart, hallowed hdepth, hlimit, part.balances start⟩
  · have hlevels := hreachable.levels
    refine ⟨hlevels, fun limit after hrun => ?_⟩
    have hnone : workspace.machine.depth = 0 := hlevels.depth
    have hlimit : workspace.machine.callLimit = options.maxCallDepth := hlevels.callLimit
    have hfull := Activity.Exceeds.full ⟨after, hrun⟩ (by rw [hnone]; exact Nat.zero_le _)
    rwa [hnone, hlimit, Nat.sub_zero] at hfull

def descendSlot : MethodSlot := ⟨⟨0⟩, "descend"⟩

/-- A method that calls itself. -/
def descend : Routine where
  name := "descend"
  arity := 0
  slots := 0
  ret := .num
  body := [.return (.call .this descendSlot [] .num)]

def descending : Machine where
  heap := ⟨#[⟨⟨0⟩, .object { worn := [⟨0⟩], table := ⟨1, Table.insert ∅ descendSlot descend⟩ }⟩]⟩
  callLimit := 2

def descent : Activity := .dispatch 20 (.object ⟨0, ⟨0⟩⟩) descendSlot .null [] .num

theorem descent_balanced : descending.depth ≤ descending.callLimit ∧
    descent.run descending = .error (.error (.callDepthExceeded 2)) descending ∧
    descending.Balances descent.run ∧
    ∃ part start, descent.Comprises descending 2 part start ∧ part.Refused 2 start := by
  have hrun : descent.run descending = .error (.error (.callDepthExceeded 2)) descending := rfl
  obtain ⟨hbalances, -, hfull, -⟩ := depth_balanced descent descending (by decide)
  exact ⟨by decide, hrun, hbalances, (hfull 2 descending hrun).2⟩

end Workspace

end Attire
