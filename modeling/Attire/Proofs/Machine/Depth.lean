import Attire.Proofs.Runs.Activities
import Attire.Proofs.Snapshot.Numbering

namespace Attire

open Machine

/-! How deep calls are nested in the course of a run. -/

/-- Calls are nested as deep as before, and may be nested as deep as before. -/
structure Machine.Levels (before after : Machine) : Prop where
  depth : after.depth = before.depth
  callLimit : after.callLimit = before.callLimit

namespace Machine.Levels

variable {before after last : Machine}

theorem refl (machine : Machine) : machine.Levels machine := ⟨rfl, rfl⟩

theorem trans (h : before.Levels after) (h' : after.Levels last) : before.Levels last :=
  ⟨h'.depth.trans h.depth, h'.callLimit.trans h.callLimit⟩

end Machine.Levels

theorem Machine.Tallies.levels {before after : Machine} (h : before.Tallies after) :
    before.Levels after :=
  ⟨h.depth, h.callLimit⟩

/-- However the run ends, calls are nested as deep as when it began. -/
def Machine.Balances {α : Type} (machine : Machine) (run : Run α) : Prop :=
  Yields run machine (fun _ after => machine.Levels after)
    fun halt after => ∀ error, halt = .error error → machine.Levels after

namespace Level

/-- How deep calls are nested.  Between the beginning of a call and its end that does not change. -/
structure World where
  depth : Nat

instance : Preorder World where
  le := Eq
  le_refl _ := rfl
  le_trans _ _ _ := Eq.trans

def tally (limit : Nat) : Tally World where
  fits world machine := machine.depth = world.depth ∧ machine.callLimit = limit
  fault _ := True
  faulty _ := trivial
  enter world := ⟨world.depth + 1⟩
  leave world := ⟨world.depth - 1⟩
  blames _ := trivial
  congr h htallies := ⟨htallies.depth.trans h.1, htallies.callLimit.trans h.2⟩
  made _ h := h
  enter_fits h _ := ⟨congrArg (· + 1) h.1, h.2⟩
  leave_fits := by
    rintro world _ machine rfl ⟨hdepth, hlimit⟩
    exact ⟨rfl, congrArg (· - 1) hdepth, hlimit⟩

end Level

namespace Machine

variable {machine after : Machine} {α β : Type} {run : Run α} {steps : Nat} {frame : Frame}

theorem balances_of_safe {post : Level.World → Machine → α → Prop}
    (h : (Level.tally machine.callLimit).Safe ⟨machine.depth⟩ run machine post) :
    machine.Balances run := by
  refine Yields.imp h ?_ ?_
  · rintro _ after ⟨_, rfl, hfits, -⟩
    exact ⟨hfits.1, hfits.2⟩
  · rintro _ after herror error heq
    obtain ⟨-, _, rfl, hfits⟩ := herror error heq
    exact ⟨hfits.1, hfits.2⟩

theorem level_fits (machine : Machine) :
    (Level.tally machine.callLimit).fits ⟨machine.depth⟩ machine := ⟨rfl, rfl⟩

theorem balances_pure {answer : α} : machine.Balances (pure answer : Run α) := .refl machine

theorem Balances.bind {next : α → Run β} (h : machine.Balances run)
    (hnext : ∀ answer after, machine.Levels after → after.Balances (next answer)) :
    machine.Balances (run >>= next) := by
  refine yields_bind.mpr (Yields.imp h ?_ fun _ _ h => h)
  intro answer after hafter
  exact (hnext answer after hafter).imp (fun _ _ hlast => hafter.trans hlast)
    fun _ _ hlast error heq => hafter.trans (hlast error heq)

theorem Balances.discard (h : machine.Balances run) : machine.Balances (discard run) :=
  yields_map.mpr h

theorem Balances.forM {γ : Type} {action : γ → Run PUnit} {items : List γ}
    (h : ∀ item (machine : Machine), machine.Balances (action item)) :
    ∀ machine : Machine, machine.Balances (items.forM action) := by
  induction items with
  | nil => exact fun _ => balances_pure
  | cons item rest ih => exact fun machine => (h item machine).bind fun _ after _ => ih after

/-! Programs keep the level, whatever they do. -/

theorem level_keeps (limit steps : Nat) : (Level.tally limit).discipline.Keeps steps :=
  (Level.tally limit).discipline.keeps steps

theorem level_frame (limit : Nat) (world : Level.World) (frame : Frame) :
    (Level.tally limit).discipline.AdmitsFrame world frame :=
  ⟨fun value _ => value.within_all, frame.this.within_all, frame.caller.within_all⟩

theorem balances_evals (codes : List Code) :
    machine.Balances ((codes.mapM (eval steps)).run frame) :=
  balances_of_safe ((level_keeps _ steps).evalAll (level_fits machine) (level_frame _ _ frame)
    (Code.allWithin_all codes))

theorem balances_evalSteps (codes : List StepCode) :
    machine.Balances ((codes.mapM (evalStep steps)).run frame) :=
  balances_of_safe ((level_keeps _ steps).evalSteps (level_fits machine) (level_frame _ _ frame)
    (StepCode.allWithin_all codes))

theorem balances_classRoutine? (cls : ClassId) (slot : MethodSlot) :
    machine.Balances (classRoutine? cls slot) :=
  balances_of_safe (Account.safe_super (level_fits machine) cls slot)

theorem balances_installManifest (ref : Ref) : machine.Balances (installManifest ref) :=
  balances_of_safe (Account.safe_installManifest (level_fits machine) ref)

theorem balances_create (entity : Entity) : machine.Balances (create entity) :=
  yields_create.mpr ⟨rfl, rfl⟩

theorem balances_invoke (routine : Routine) (this caller : Value) (args : List Value) :
    machine.Balances (invoke steps routine this caller args) :=
  balances_of_safe ((level_keeps _ steps).invoke (level_fits machine)
    (Instr.allWithin_all routine.body) this.within_all caller.within_all
    fun arg _ => arg.within_all)

theorem balances_initializePending (ref : Ref) (field : PendingField) :
    machine.Balances (initializePending steps ref field) := by
  have hstore : ∀ value (after : Machine),
      after.Balances (initializeField ref field.key value) := fun value after =>
    balances_of_safe (Account.safe_onHeap (level_fits after) (Heap.ids_modifyObject ..))
  have hdefault : machine.Balances (defaultValue true field.ty) :=
    balances_of_safe ((Level.tally machine.callLimit).discipline.safe_defaultValue true field.ty
      (level_fits machine))
  unfold initializePending
  split
  · exact (balances_invoke ..).bind fun value after _ => hstore value after
  · exact hdefault.bind fun value after _ => hstore value after

theorem balances_extend (ref : Ref) (cls : ClassId) : machine.Balances (extend steps ref cls) :=
  balances_of_safe ((level_keeps _ steps).extend (level_fits machine) trivial trivial trivial)

theorem balances_retract (ref : Ref) (cls : ClassId) : machine.Balances (retract steps ref cls) :=
  balances_of_safe ((level_keeps _ steps).retract (level_fits machine) trivial trivial)

theorem balances_grant (step : Step) : machine.Balances (grant steps step) := by
  unfold grant
  split
  · exact balances_extend ..
  · exact balances_pure

theorem balances_carryOut (step : Step) : machine.Balances (carryOut steps step) := by
  unfold carryOut
  split
  · refine Balances.bind (.refl machine) fun _ after _ => ?_
    split
    · exact (balances_invoke ..).bind fun _ _ _ => balances_pure
    · exact balances_pure
  · exact balances_pure

theorem balances_revoke (step : Step) : machine.Balances (revoke steps step) := by
  unfold revoke
  split
  · exact balances_retract ..
  · exact balances_pure

theorem balances_initializeMissing (ref : Ref) : machine.Balances (initializeMissing steps ref) :=
  balances_of_safe ((level_keeps _ steps).initializeMissing (level_fits machine) trivial trivial)

theorem balances_remanifest (ref : Ref) : machine.Balances (remanifest steps ref) := by
  cases steps with
  | zero => rintro error ⟨⟩
  | succ steps =>
    rw [remanifest]
    exact (balances_installManifest ref).bind fun _ _ _ => balances_initializeMissing ref

/-! Restores. -/

theorem balances_stock (snapshot : Snapshot) : machine.Balances (Restore.stock snapshot) :=
  balances_of_safe (Account.safe_stock (fun _ _ h => h) (level_fits machine) snapshot)

theorem balances_fill (shells : Restore.Shells) (objects : List (Ref × SnapObject))
    (snapshot : Snapshot) : machine.Balances (Restore.fill shells objects snapshot) :=
  balances_of_safe (Account.safe_fill (level_fits machine) objects snapshot)

theorem balances_value (shells : Restore.Shells) (content : SnapValue) :
    machine.Balances (Restore.value shells content) :=
  balances_of_safe (Account.safe_value content (level_fits machine))

theorem balances_restore (snapshot : Snapshot) : machine.Balances (restore steps snapshot) := by
  rw [restore_eq]
  refine (balances_stock snapshot).bind fun made _ _ => ?_
  refine (balances_fill made.1 made.2 snapshot).bind fun _ _ _ => ?_
  refine (balances_value made.1 snapshot.root).bind fun root _ _ => ?_
  have hmissing : ∀ machine : Machine,
      machine.Balances (made.2.forM fun entry => initializeMissing steps entry.1) :=
    Balances.forM fun entry _ => balances_initializeMissing entry.1
  refine (hmissing _).bind fun _ machine _ => Balances.bind ?_ fun _ _ _ => balances_pure
  refine Balances.forM (fun ref machine => ?_) machine
  exact yields_modify.mpr ⟨rfl, rfl⟩

end Machine

namespace Activity

variable {activity part : Activity} {machine start : Machine}

/-- Every activity comes back to the depth at which it began. -/
theorem balances (activity : Activity) (machine : Machine) : machine.Balances activity.run := by
  have hfits := level_fits machine
  cases activity with
  | eval steps code frame =>
    exact (balances_of_safe ((level_keeps _ steps).eval hfits (level_frame _ _ frame)
      code.within_all)).discard
  | evalStep steps code frame =>
    exact (balances_of_safe ((level_keeps _ steps).evalStep hfits (level_frame _ _ frame)
      code.within_all)).discard
  | exec steps instr frame =>
    exact (balances_of_safe ((level_keeps _ steps).exec hfits (level_frame _ _ frame)
      instr.within_all)).discard
  | block steps body frame =>
    exact (balances_of_safe ((level_keeps _ steps).execBlock hfits (level_frame _ _ frame)
      (Instr.allWithin_all body))).discard
  | repeatWhile steps cond body frame =>
    exact (balances_of_safe ((level_keeps _ steps).repeatWhile hfits (level_frame _ _ frame)
      cond.within_all (Instr.allWithin_all body))).discard
  | repeatFor steps first second body rounds frame =>
    exact (balances_of_safe ((level_keeps _ steps).repeatFor hfits (level_frame _ _ frame)
      (Instr.allWithin_all body) fun _ _ value _ => value.within_all)).discard
  | invoke steps routine this caller args => exact (balances_invoke ..).discard
  | dispatch steps target slot caller args ret =>
    exact (balances_of_safe ((level_keeps _ steps).dispatch hfits trivial target.within_all
      caller.within_all fun arg _ => arg.within_all)).discard
  | initializeMissing steps ref => exact (balances_initializeMissing ref).discard
  | remanifest steps ref => exact (balances_remanifest ref).discard
  | instantiate steps cls =>
    exact (balances_of_safe ((level_keeps _ steps).instantiate hfits trivial)).discard
  | extend steps ref cls => exact (balances_extend ref cls).discard
  | retract steps ref cls => exact (balances_retract ref cls).discard
  | enforce steps batch =>
    exact (balances_of_safe ((level_keeps _ steps).enforce hfits trivial
      fun step _ => step.within_all)).discard
  | call steps ref name caller args =>
    exact (balances_of_safe (Tally.safe_call hfits steps ref name caller args)).discard
  | restore steps snapshot => exact (balances_restore snapshot).discard

/-- What begins in an activity begins at its level, or one call deeper where that is allowed. -/
theorem Begins.level (h : activity.Begins machine part start) :
    start.depth = machine.depth + activity.calls ∧ start.callLimit = machine.callLimit ∧
      (machine.depth ≤ machine.callLimit → start.depth ≤ machine.callLimit) := by
  have hsame (hlevels : machine.Levels start) (hcalls : activity.calls = 0) :
      start.depth = machine.depth + activity.calls ∧ start.callLimit = machine.callLimit ∧
        (machine.depth ≤ machine.callLimit → start.depth ≤ machine.callLimit) :=
    ⟨by rw [hcalls, hlevels.depth, Nat.add_zero], hlevels.callLimit, (hlevels.depth ▸ ·)⟩
  have heval : ∀ {steps code frame value after}, (Machine.eval steps code).run frame machine =
      .ok value after → machine.Levels after := fun hrun =>
    (balances_of_safe ((level_keeps _ _).eval (level_fits machine) (level_frame _ _ _)
      (Code.within_all _))).of_ok hrun
  have hblock : ∀ {machine after : Machine} {steps body frame flow},
      (Machine.execBlock steps body).run frame machine = .ok flow after → machine.Levels after :=
    fun {machine} {_ _ _ _ _} hrun =>
      (balances_of_safe ((level_keeps _ _).execBlock (level_fits machine) (level_frame _ _ _)
        (Instr.allWithin_all _))).of_ok hrun
  cases h with
  | body hdepth => exact ⟨rfl, rfl, fun _ => hdepth⟩
  | new | loop | first | cond | roundOf | bound | worn | doffed | called =>
    exact hsame ⟨rfl, rfl⟩ rfl
  | operand _ hrun | stepOperand _ hrun | instrOperand _ hrun | dispatched hrun =>
    exact hsame ((balances_evals _).of_ok hrun) rfl
  | part _ hrun => exact hsame ((balances_evalSteps _).of_ok hrun) rfl
  | supered hrun hroutine =>
    exact hsame (((balances_evals _).of_ok hrun).trans
      ((balances_classRoutine? ..).of_ok hroutine)) rfl
  | right hrun | branch hrun | each hrun | extended hrun | retracted hrun | enforced hrun =>
    exact hsame (heval hrun) rfl
  | rest hrun =>
    exact hsame ((balances_of_safe ((level_keeps _ _).exec (level_fits machine)
      (level_frame _ _ _) (Instr.within_all _))).of_ok hrun) rfl
  | round hrun _ => exact hsame (heval hrun) rfl
  | again hrun _ hround _ => exact hsame ((heval hrun).trans (hblock hround)) rfl
  | nextOf hround _ => exact hsame (hblock hround) rfl
  | initializer _ hrun _ =>
    have hfields : machine.Levels start :=
      (Balances.forM (fun field _ => balances_initializePending _ field) _).of_ok hrun
    exact hsame hfields rfl
  | missing hrun => exact hsame ((balances_installManifest _).of_ok hrun) rfl
  | made _ hrun => exact hsame ((balances_create _).of_ok hrun) rfl
  | granted _ hrun =>
    exact hsame ((Balances.forM (fun step _ => balances_grant step) _).of_ok hrun) rfl
  | carriedOut _ hgrant hrun _ =>
    exact hsame (((Balances.forM (fun step _ => balances_grant step) _).of_ok hgrant).trans
      ((Balances.forM (fun step _ => balances_carryOut step) _).of_ok hrun)) rfl
  | revoked _ hgrant hcarry hrun =>
    exact hsame (((Balances.forM (fun step _ => balances_grant step) _).of_ok hgrant).trans
      (((Balances.forM (fun step _ => balances_carryOut step) _).of_ok hcarry).trans
        ((Balances.forM (fun step _ => balances_revoke step) _).of_ok hrun))) rfl
  | completed hstock hfill hroot _ hrun =>
    refine hsame (((balances_stock _).of_ok hstock).trans (((balances_fill _ _ _).of_ok hfill).trans
      (((balances_value _ _).of_ok hroot).trans ?_))) rfl
    exact (Balances.forM (fun _ _ => balances_initializeMissing _) _).of_ok hrun

/-- In the midst of so many calls the depth is larger by as many, and it never is larger than
allowed. -/
theorem Comprises.level {calls : Nat} (h : activity.Comprises machine calls part start) :
    start.depth = machine.depth + calls ∧ start.callLimit = machine.callLimit ∧
      (machine.depth ≤ machine.callLimit → start.depth ≤ machine.callLimit) := by
  induction h with
  | itself => exact ⟨rfl, rfl, fun hallowed => hallowed⟩
  | begins _ hbegins ih =>
    obtain ⟨hdepth, hlimit, hallowed⟩ := ih
    obtain ⟨hdepth', hlimit', hallowed'⟩ := hbegins.level
    rw [hlimit] at hallowed'
    exact ⟨by omega, hlimit'.trans hlimit, fun hle => hallowed' (hallowed hle)⟩

end Activity

end Attire
