import Attire.Proofs.Runs.Refusals

namespace Attire

open Machine

/-! The parts of a run, in the order in which they begin. -/

/-- What comes of a run that has not failed. -/
def Machine.onward {α β : Type} (run : Run α) (machine : Machine) (next : α → Machine → List β) :
    List β :=
  match run machine with
  | .ok answer after => next answer after
  | .error _ _ => []

theorem Machine.mem_onward {α β : Type} {run : Run α} {machine : Machine}
    {next : α → Machine → List β} {entry : β} : entry ∈ onward run machine next ↔
      ∃ answer after, run machine = .ok answer after ∧ entry ∈ next answer after := by
  unfold onward
  cases run machine <;> simp

theorem run_bind_eq_ok {ε σ α β : Type} {run : EStateM ε σ α} {next : α → EStateM ε σ β}
    {state after : σ} {answer : β} : (run >>= next) state = .ok answer after ↔
      ∃ first middle, run state = .ok first middle ∧ next first middle = .ok answer after := by
  simp only [Bind.bind, EStateM.bind]
  cases run state <;> simp

theorem Machine.mapM_cons_eq_ok {γ β : Type} {action : γ → Exec β} {item : γ} {rest : List γ}
    {answers : List β} {frame frame'' : Frame} {machine machine'' : Machine} :
    ((item :: rest).mapM action).run frame machine = .ok (answers, frame'') machine'' ↔
      ∃ answer frame' machine' others,
        (action item).run frame machine = .ok (answer, frame') machine' ∧
        (rest.mapM action).run frame' machine' = .ok (others, frame'') machine'' ∧
        answers = answer :: others := by
  constructor
  · intro hrun
    rw [List.mapM_cons] at hrun
    obtain ⟨⟨answer, frame'⟩, machine', hitem, hrun⟩ := run_bind_eq_ok.mp hrun
    obtain ⟨⟨others, last⟩, final, hrest, hlast⟩ := run_bind_eq_ok.mp hrun
    cases hlast
    exact ⟨answer, frame', machine', others, hitem, hrest, rfl⟩
  · rintro ⟨answer, frame', machine', others, hitem, hrest, rfl⟩
    exact mapM_cons_ok hitem hrest

namespace Activity

/-- An activity and the machine on which it begins. -/
abbrev Onset := Activity × Machine

/-- Items are dealt with in turn, each in the frame that the one before it leaves. -/
def inTurn {γ β : Type} (act : γ → Exec β) (activity : γ → Frame → Activity) :
    List γ → Frame → Machine → (List β → Frame → Machine → List Onset) → List Onset
  | [], frame, machine, next => next [] frame machine
  | item :: rest, frame, machine, next =>
    (activity item frame, machine) :: onward ((act item).run frame) machine fun answer machine =>
      inTurn act activity rest answer.2 machine fun answers => next (answer.1 :: answers)

/-- Items are dealt with in turn, some of which begin an activity. -/
def each {γ : Type} (act : γ → Run PUnit) (part? : γ → Machine → Option Activity) :
    List γ → Machine → (Machine → List Onset) → List Onset
  | [], machine, next => next machine
  | item :: rest, machine, next =>
    ((part? item machine).map fun part => (part, machine)).toList ++
      onward (act item) machine fun _ machine => each act part? rest machine next

/-- What an expression begins when its operands are evaluated. -/
def ofCode (steps : Nat) (code : Code) (values : List Value) (frame : Frame) (machine : Machine) :
    List Onset :=
  match code, values with
  | .logic conjunction _ right, [left] =>
    if left.asBool = conjunction then [(eval steps right frame, machine)] else []
  | .suggest parts, _ =>
    inTurn (Machine.evalStep steps) (evalStep steps) parts frame machine fun _ _ _ => []
  | .call _ slot _ ret, target :: args =>
    [(dispatch steps target slot frame.this args ret, machine)]
  | .superCall parent slot _, args =>
    onward (classRoutine? parent slot) machine fun routine? machine =>
      (routine?.map fun routine =>
        (invoke steps routine frame.this frame.caller args, machine)).toList
  | .new cls, _ => [(instantiate steps cls, machine)]
  | _, _ => []

/-- What a statement begins when its operands are evaluated. -/
def ofInstr (steps : Nat) (instr : Instr) (values : List Value) (frame : Frame)
    (machine : Machine) : List Onset :=
  match instr, values with
  | .branch _ yes no, [cond] =>
    [(block steps (if cond.asBool then yes else no) frame, machine)]
  | .while cond body, _ => [(repeatWhile steps cond body frame, machine)]
  | .forEach _ kind first second body, [source] =>
    [(repeatFor steps first second body (machine.heap.rounds source kind second.isSome) frame,
      machine)]
  | .extend _ cls, [.object ref] => [(extend steps ref cls, machine)]
  | .retract _ cls, [.object ref] => [(retract steps ref cls, machine)]
  | .enforce _, [.suggestion _ batch] => [(enforce steps batch, machine)]
  | _, _ => []

/-- What begins after a round of a loop. -/
def ofRound (flow : Flow) (again : Activity) (machine : Machine) : List Onset :=
  match flow with
  | .next | .continue => [(again, machine)]
  | .break | .return _ => []

/-! What the three passes over a batch begin. -/

def granting? (steps : Nat) : Step → Machine → Option Activity
  | .extend (.object ref) cls, _ => some (extend steps ref cls)
  | _, _ => none

def carrying? (steps : Nat) : Step → Machine → Option Activity
  | .call target caller slot args, machine =>
    (boundRoutine? machine.heap target slot).map fun routine =>
      invoke steps routine target caller args
  | _, _ => none

def revoking? (steps : Nat) : Step → Machine → Option Activity
  | .retract (.object ref) cls, _ => some (retract steps ref cls)
  | _, _ => none

/-- All that the activity begins itself. -/
def parts : Activity → Machine → List Onset
  | eval (steps + 1) code frame, machine =>
    inTurn (Machine.eval steps) (eval steps) code.operands frame machine (ofCode steps code)
  | evalStep (steps + 1) code frame, machine =>
    inTurn (Machine.eval steps) (eval steps) code.operands frame machine fun _ _ _ => []
  | exec (steps + 1) instr frame, machine =>
    inTurn (Machine.eval steps) (eval steps) instr.operands frame machine (ofInstr steps instr)
  | block (steps + 1) (instr :: rest) frame, machine =>
    (exec steps instr frame, machine) ::
      onward ((Machine.exec steps instr).run frame) machine fun answer machine =>
        match answer.1 with
        | .next => [(block steps rest answer.2, machine)]
        | _ => []
  | repeatWhile (steps + 1) cond body frame, machine =>
    (eval steps cond frame, machine) ::
      onward ((Machine.eval steps cond).run frame) machine fun answer machine =>
        if answer.1.asBool then
          (block steps body answer.2, machine) ::
            onward ((execBlock steps body).run answer.2) machine fun answer machine =>
              ofRound answer.1 (repeatWhile steps cond body answer.2) machine
        else []
  | repeatFor (steps + 1) first second body (round :: rounds) frame, machine =>
    (block steps body (frame.enterRound first second round), machine) ::
      onward ((execBlock steps body).run (frame.enterRound first second round)) machine
        fun answer machine =>
          ofRound answer.1 (repeatFor steps first second body rounds answer.2) machine
  | invoke (steps + 1) routine this caller args, machine =>
    if machine.callLimit ≤ machine.depth then []
    else [(block steps routine.body (Frame.ofRoutine routine this caller args),
      { machine with depth := machine.depth + 1 })]
  | dispatch (steps + 1) target slot caller args _, machine =>
    ((boundRoutine? machine.heap target slot).map fun routine =>
      (invoke steps routine target caller args, machine)).toList
  | initializeMissing (steps + 1) ref, machine =>
    each (initializePending steps ref)
      (fun field _ => field.initializer.map fun routine =>
        invoke steps routine (.object ref) .null [])
      (machine.pending ref) machine fun _ => []
  | remanifest (steps + 1) ref, machine =>
    onward (installManifest ref) machine fun _ machine => [(initializeMissing steps ref, machine)]
  | instantiate (steps + 1) cls, machine =>
    if machine.classes.contains cls then
      onward (create (.object { worn := [cls] })) machine fun ref machine =>
        [(remanifest steps ref, machine)]
    else []
  | extend (steps + 1) ref cls, machine =>
    match machine.heap.object? ref with
    | some object =>
      if machine.classes.contains cls ∧ cls ∉ object.worn ∧ object.embodies cls = false then
        [(remanifest steps ref, { machine with
          heap := machine.heap.modifyObject ref fun object =>
            { object with worn := object.worn ++ [cls] } })]
      else []
    | none => []
  | retract (steps + 1) ref cls, machine =>
    [(remanifest steps ref, { machine with
      heap := machine.heap.modifyObject ref fun object =>
        { object with worn := object.worn.filter (· ≠ cls) } })]
  | enforce (steps + 1) batch, machine =>
    each (grant steps) (granting? steps) batch machine fun machine =>
      each (carryOut steps) (carrying? steps) batch machine fun machine =>
        each (revoke steps) (revoking? steps) batch machine fun _ => []
  | call steps ref name caller args, machine =>
    match (machine.heap.object? ref).bind fun object => machine.findMethod? object name with
    | some sig =>
      if sig.params.length = args.length then
        [(dispatch steps (.object ref) sig.slot caller args sig.ret, machine)]
      else []
    | none => []
  | restore steps snapshot, machine =>
    onward (Restore.stock snapshot) machine fun made machine =>
      onward (Restore.fill made.1 made.2 snapshot) machine fun _ machine =>
        onward (Restore.value made.1 snapshot.root) machine fun _ machine =>
          each (fun entry => Machine.initializeMissing steps entry.1)
            (fun entry _ => some (initializeMissing steps entry.1)) made.2 machine fun _ => []
  | _, _ => []

/-! The parts are what the activity begins, and nothing else. -/

section

variable {γ β : Type} {frame : Frame} {machine : Machine} {onset : Onset}

theorem mem_inTurn {act : γ → Exec β} {activity : γ → Frame → Activity} {items : List γ}
    {next : List β → Frame → Machine → List Onset} :
    onset ∈ inTurn act activity items frame machine next ↔
      (∃ done item rest answers frame' after, items = done ++ item :: rest ∧
        (done.mapM act).run frame machine = .ok (answers, frame') after ∧
        onset = (activity item frame', after)) ∨
      ∃ answers frame' after, (items.mapM act).run frame machine = .ok (answers, frame') after ∧
        onset ∈ next answers frame' after := by
  induction items generalizing frame machine next with
  | nil =>
    constructor
    · exact fun h => .inr ⟨[], frame, machine, rfl, h⟩
    · rintro (⟨done, item, rest, -, -, -, heq, -⟩ | ⟨answers, frame', after, hrun, h⟩)
      · simp at heq
      · cases hrun
        exact h
  | cons item rest ih =>
    rw [inTurn, List.mem_cons, mem_onward]
    constructor
    · rintro (rfl | ⟨⟨answer, frame'⟩, after, hitem, h⟩)
      · exact .inl ⟨[], item, rest, [], frame, machine, rfl, rfl, rfl⟩
      · rcases ih.mp h with ⟨done, other, left, answers, frame'', last, rfl, hdone, rfl⟩ |
          ⟨answers, frame'', last, hrest, h⟩
        · exact .inl ⟨item :: done, other, left, answer :: answers, frame'', last, rfl,
            mapM_cons_ok hitem hdone, rfl⟩
        · exact .inr ⟨answer :: answers, frame'', last, mapM_cons_ok hitem hrest, h⟩
    · rintro (⟨done, other, left, answers, frame', after, heq, hdone, rfl⟩ |
        ⟨answers, frame', after, hrun, h⟩)
      · cases done with
        | nil =>
          cases hdone
          cases heq
          exact .inl rfl
        | cons first done =>
          cases heq
          obtain ⟨answer, frame'', middle, answers', hfirst, hrest, -⟩ := mapM_cons_eq_ok.mp hdone
          exact .inr ⟨(answer, frame''), middle, hfirst,
            ih.mpr (.inl ⟨done, other, left, answers', frame', after, rfl, hrest, rfl⟩)⟩
      · obtain ⟨answer, frame'', middle, answers', hfirst, hrest, rfl⟩ := mapM_cons_eq_ok.mp hrun
        exact .inr ⟨(answer, frame''), middle, hfirst,
          ih.mpr (.inr ⟨answers', frame', after, hrest, h⟩)⟩

theorem mem_each {act : γ → Run PUnit} {part? : γ → Machine → Option Activity} {items : List γ}
    {next : Machine → List Onset} : onset ∈ each act part? items machine next ↔
      (∃ done item rest after, items = done ++ item :: rest ∧
        done.forM act machine = .ok ⟨⟩ after ∧ part? item after = some onset.1 ∧
        onset.2 = after) ∨
      ∃ after, items.forM act machine = .ok ⟨⟩ after ∧ onset ∈ next after := by
  induction items generalizing machine next with
  | nil =>
    constructor
    · exact fun h => .inr ⟨machine, rfl, h⟩
    · rintro (⟨done, item, rest, -, heq, -⟩ | ⟨after, hrun, h⟩)
      · simp at heq
      · cases hrun
        exact h
  | cons item rest ih =>
    rw [each, List.mem_append, mem_onward]
    constructor
    · rintro (h | ⟨⟨⟩, after, hitem, h⟩)
      · simp only [Option.mem_toList, Option.map_eq_some_iff] at h
        obtain ⟨part, hpart, rfl⟩ := h
        exact .inl ⟨[], item, rest, machine, rfl, rfl, hpart, rfl⟩
      · rcases ih.mp h with ⟨done, other, left, last, rfl, hdone, hpart, hstart⟩ | ⟨last, hrest, h⟩
        · exact .inl ⟨item :: done, other, left, last, rfl, (run_bind_ok hitem).trans hdone, hpart,
            hstart⟩
        · exact .inr ⟨last, (run_bind_ok hitem).trans hrest, h⟩
    · rintro (⟨done, other, left, after, heq, hdone, hpart, hstart⟩ | ⟨after, hrun, h⟩)
      · cases done with
        | nil =>
          cases hdone
          cases heq
          subst hstart
          exact .inl (by simp [hpart])
        | cons first done =>
          cases heq
          obtain ⟨⟨⟩, middle, hfirst, hdone⟩ := run_bind_eq_ok.mp hdone
          exact .inr ⟨⟨⟩, middle, hfirst,
            ih.mpr (.inl ⟨done, other, left, after, rfl, hdone, hpart, hstart⟩)⟩
      · obtain ⟨⟨⟩, middle, hfirst, hrest⟩ := run_bind_eq_ok.mp hrun
        exact .inr ⟨⟨⟩, middle, hfirst, ih.mpr (.inr ⟨after, hrest, h⟩)⟩

theorem mapM_singleton_eq_ok {action : γ → Exec β} {item : γ} {answers : List β} {frame' : Frame}
    {after : Machine} : ([item].mapM action).run frame machine = .ok (answers, frame') after ↔
      ∃ answer, (action item).run frame machine = .ok (answer, frame') after ∧
        answers = [answer] := by
  rw [mapM_cons_eq_ok]
  constructor
  · rintro ⟨answer, frame'', middle, others, hitem, hrest, rfl⟩
    cases hrest
    exact ⟨answer, hitem, rfl⟩
  · rintro ⟨answer, hitem, rfl⟩
    exact ⟨answer, frame', after, [], hitem, rfl, rfl⟩

variable {steps : Nat} {values : List Value} {after : Machine} {frame' : Frame}

theorem begins_of_mem_ofCode {code : Code}
    (hrun : (code.operands.mapM (Machine.eval steps)).run frame machine =
      .ok (values, frame') after) (h : onset ∈ ofCode steps code values frame' after) :
    Begins (eval (steps + 1) code frame) machine onset.1 onset.2 := by
  unfold ofCode at h
  split at h
  case h_1 conjunction _ right left =>
    split at h
    case isTrue heq =>
      obtain ⟨answer, hleft, heq'⟩ := mapM_singleton_eq_ok.mp hrun
      cases heq'
      cases List.mem_singleton.mp h
      exact heq ▸ .right hleft
    case isFalse => cases h
  case h_2 parts _ =>
    cases hrun
    rcases mem_inTurn.mp h with ⟨done, part, rest, made, frame'', last, hsplit, hdone, rfl⟩ |
      ⟨-, -, -, -, h⟩
    · exact .part hsplit hdone
    · cases h
  case h_3 =>
    cases List.mem_singleton.mp h
    exact .dispatched hrun
  case h_4 parent slot args _ =>
    obtain ⟨routine?, last, hroutine, h⟩ := mem_onward.mp h
    cases routine? with
    | none => cases h
    | some routine =>
      cases List.mem_singleton.mp h
      exact .supered hrun hroutine
  case h_5 =>
    cases hrun
    cases List.mem_singleton.mp h
    exact .new
  case h_6 => cases h

theorem begins_of_mem_ofInstr {instr : Instr}
    (hrun : (instr.operands.mapM (Machine.eval steps)).run frame machine =
      .ok (values, frame') after) (h : onset ∈ ofInstr steps instr values frame' after) :
    Begins (exec (steps + 1) instr frame) machine onset.1 onset.2 := by
  unfold ofInstr at h
  split at h
  case h_2 =>
    cases hrun
    cases List.mem_singleton.mp h
    exact .loop
  case h_7 => cases h
  all_goals
    obtain ⟨answer, hvalue, heq⟩ := mapM_singleton_eq_ok.mp hrun
    cases heq
    cases List.mem_singleton.mp h
  case h_1 => exact .branch hvalue
  case h_3 => exact .each hvalue
  case h_4 => exact .extended hvalue
  case h_5 => exact .retracted hvalue
  case h_6 => exact .enforced hvalue

/-- What the passes over a batch begin, each pass after the ones before it. -/
theorem begins_of_mem_passes {batch : List Step}
    (h : onset ∈ each (grant steps) (granting? steps) batch machine fun machine =>
      each (carryOut steps) (carrying? steps) batch machine fun machine =>
        each (revoke steps) (revoking? steps) batch machine fun _ => []) :
    Begins (enforce (steps + 1) batch) machine onset.1 onset.2 := by
  obtain ⟨part, start⟩ := onset
  rcases mem_each.mp h with ⟨done, step, rest, after, hsplit, hdone, hpart, rfl⟩ |
    ⟨granted, hgranted, h⟩
  · unfold granting? at hpart
    split at hpart
    case h_2 => cases hpart
    case h_1 =>
      cases hpart
      exact .granted hsplit hdone
  rcases mem_each.mp h with ⟨done, step, rest, after, hsplit, hdone, hpart, rfl⟩ |
    ⟨carried, hcarried, h⟩
  · unfold carrying? at hpart
    split at hpart
    case h_2 => cases hpart
    case h_1 =>
      obtain ⟨routine, hbound, rfl⟩ := Option.map_eq_some_iff.mp hpart
      exact .carriedOut hsplit hgranted hdone hbound
  rcases mem_each.mp h with ⟨done, step, rest, after, hsplit, hdone, hpart, rfl⟩ | ⟨-, -, h⟩
  · unfold revoking? at hpart
    split at hpart
    case h_2 => cases hpart
    case h_1 =>
      cases hpart
      exact .revoked hsplit hgranted hcarried hdone
  · cases h

theorem mem_ofRound {flow : Flow} {again : Activity} : onset ∈ ofRound flow again machine ↔
    (flow = .next ∨ flow = .continue) ∧ onset = (again, machine) := by
  cases flow <;> simp [ofRound]

end

variable {activity : Activity} {machine : Machine} {onset : Onset}

theorem begins_of_mem_parts (h : onset ∈ activity.parts machine) :
    activity.Begins machine onset.1 onset.2 := by
  unfold parts at h
  split at h
  case h_1 =>
    rcases mem_inTurn.mp h with ⟨done, operand, rest, values, frame', after, hsplit, hdone, rfl⟩ |
      ⟨values, frame', after, hrun, h⟩
    · exact .operand hsplit hdone
    · exact begins_of_mem_ofCode hrun h
  case h_2 =>
    rcases mem_inTurn.mp h with ⟨done, operand, rest, values, frame', after, hsplit, hdone, rfl⟩ |
      ⟨-, -, -, -, h⟩
    · exact .stepOperand hsplit hdone
    · cases h
  case h_3 =>
    rcases mem_inTurn.mp h with ⟨done, operand, rest, values, frame', after, hsplit, hdone, rfl⟩ |
      ⟨values, frame', after, hrun, h⟩
    · exact .instrOperand hsplit hdone
    · exact begins_of_mem_ofInstr hrun h
  case h_4 =>
    rcases List.mem_cons.mp h with rfl | h
    · exact .first
    · obtain ⟨⟨flow, frame'⟩, after, hinstr, h⟩ := mem_onward.mp h
      cases flow with
      | next =>
        cases List.mem_singleton.mp h
        exact .rest hinstr
      | «break» | «continue» | «return» => cases h
  case h_5 =>
    rcases List.mem_cons.mp h with rfl | h
    · exact .cond
    · obtain ⟨⟨value, frame'⟩, after, hcond, h⟩ := mem_onward.mp h
      dsimp only at h
      split at h
      case isFalse => cases h
      case isTrue htrue =>
        rcases List.mem_cons.mp h with rfl | h
        · exact .round hcond htrue
        · obtain ⟨⟨flow, frame''⟩, last, hround, h⟩ := mem_onward.mp h
          obtain ⟨hflow, rfl⟩ := mem_ofRound.mp h
          exact .again hcond htrue hround hflow
  case h_6 =>
    rcases List.mem_cons.mp h with rfl | h
    · exact .roundOf
    · obtain ⟨⟨flow, frame'⟩, after, hround, h⟩ := mem_onward.mp h
      obtain ⟨hflow, rfl⟩ := mem_ofRound.mp h
      exact .nextOf hround hflow
  case h_7 =>
    split at h
    case isTrue => cases h
    case isFalse hdepth =>
      cases List.mem_singleton.mp h
      exact .body (Nat.lt_of_not_le hdepth)
  case h_8 =>
    obtain ⟨routine, hbound, rfl⟩ := Option.map_eq_some_iff.mp (Option.mem_toList.mp h)
    exact .bound hbound
  case h_9 =>
    obtain ⟨part, start⟩ := onset
    rcases mem_each.mp h with ⟨done, field, rest, after, hsplit, hdone, hpart, rfl⟩ | ⟨-, -, h⟩
    · obtain ⟨routine, hinitializer, rfl⟩ := Option.map_eq_some_iff.mp hpart
      exact .initializer hsplit hdone hinitializer
    · cases h
  case h_10 =>
    obtain ⟨⟨⟩, after, hinstall, h⟩ := mem_onward.mp h
    cases List.mem_singleton.mp h
    exact .missing hinstall
  case h_11 =>
    split at h
    case isFalse => cases h
    case isTrue hknown =>
      obtain ⟨ref, after, hcreate, h⟩ := mem_onward.mp h
      cases List.mem_singleton.mp h
      exact .made hknown hcreate
  case h_12 =>
    split at h
    case h_2 => cases h
    case h_1 object hobject =>
      split at h
      case isFalse => cases h
      case isTrue hgains =>
        cases List.mem_singleton.mp h
        exact .worn hgains.1 hobject hgains.2.1 hgains.2.2
  case h_13 =>
    cases List.mem_singleton.mp h
    exact .doffed
  case h_14 => exact begins_of_mem_passes h
  case h_15 =>
    split at h
    case h_2 => cases h
    case h_1 sig hsig =>
      obtain ⟨object, hobject, hsig⟩ := Option.bind_eq_some_iff.mp hsig
      split at h
      case isFalse => cases h
      case isTrue hcount =>
        cases List.mem_singleton.mp h
        exact .called hobject hsig hcount
  case h_16 =>
    obtain ⟨part, start⟩ := onset
    obtain ⟨⟨shells, objects⟩, stocked, hstock, h⟩ := mem_onward.mp h
    obtain ⟨⟨⟩, filled, hfill, h⟩ := mem_onward.mp h
    obtain ⟨root, rooted, hroot, h⟩ := mem_onward.mp h
    rcases mem_each.mp h with ⟨done, entry, rest, after, hsplit, hdone, hpart, rfl⟩ | ⟨-, -, h⟩
    · cases hpart
      exact .completed hstock hfill hroot hsplit hdone
    · cases h
  case h_17 => cases h

theorem Begins.mem_parts {part : Activity} {start : Machine}
    (h : activity.Begins machine part start) : (part, start) ∈ activity.parts machine := by
  cases h with
  | operand hsplit hrun | stepOperand hsplit hrun | instrOperand hsplit hrun =>
    exact mem_inTurn.mpr (.inl ⟨_, _, _, _, _, _, hsplit, hrun, rfl⟩)
  | right hrun =>
    refine mem_inTurn.mpr (.inr ⟨_, _, _, mapM_singleton_eq_ok.mpr ⟨_, hrun, rfl⟩, ?_⟩)
    simp [ofCode]
  | part hsplit hrun =>
    refine mem_inTurn.mpr (.inr ⟨[], _, _, rfl, ?_⟩)
    exact mem_inTurn.mpr (.inl ⟨_, _, _, _, _, _, hsplit, hrun, rfl⟩)
  | dispatched hrun => exact mem_inTurn.mpr (.inr ⟨_, _, _, hrun, List.mem_singleton_self _⟩)
  | supered hrun hroutine =>
    refine mem_inTurn.mpr (.inr ⟨_, _, _, hrun, ?_⟩)
    simp only [ofCode]
    exact mem_onward.mpr ⟨_, _, hroutine, List.mem_cons_self⟩
  | new => exact mem_inTurn.mpr (.inr ⟨[], _, _, rfl, List.mem_singleton_self _⟩)
  | branch hrun | each hrun | extended hrun | retracted hrun | enforced hrun =>
    exact mem_inTurn.mpr (.inr ⟨_, _, _, mapM_singleton_eq_ok.mpr ⟨_, hrun, rfl⟩,
      List.mem_singleton_self _⟩)
  | loop => exact mem_inTurn.mpr (.inr ⟨[], _, _, rfl, List.mem_singleton_self _⟩)
  | first | cond | roundOf => exact List.mem_cons_self
  | rest hrun =>
    exact List.mem_cons_of_mem _ (mem_onward.mpr ⟨_, _, hrun, List.mem_singleton_self _⟩)
  | round hrun htrue =>
    refine List.mem_cons_of_mem _ (mem_onward.mpr ⟨_, _, hrun, ?_⟩)
    rw [if_pos htrue]
    exact List.mem_cons_self
  | again hrun htrue hround hflow =>
    refine List.mem_cons_of_mem _ (mem_onward.mpr ⟨_, _, hrun, ?_⟩)
    rw [if_pos htrue]
    exact List.mem_cons_of_mem _ (mem_onward.mpr ⟨_, _, hround, mem_ofRound.mpr ⟨hflow, rfl⟩⟩)
  | nextOf hround hflow =>
    exact List.mem_cons_of_mem _ (mem_onward.mpr ⟨_, _, hround, mem_ofRound.mpr ⟨hflow, rfl⟩⟩)
  | body hdepth => simp [parts, Nat.not_le_of_lt hdepth]
  | bound hbound => simp [parts, hbound]
  | initializer hsplit hrun hinitializer =>
    exact mem_each.mpr (.inl ⟨_, _, _, _, hsplit, hrun, by rw [hinitializer]; rfl, rfl⟩)
  | missing hrun => exact mem_onward.mpr ⟨_, _, hrun, List.mem_singleton_self _⟩
  | made hknown hrun =>
    rw [parts, if_pos hknown]
    exact mem_onward.mpr ⟨_, _, hrun, List.mem_singleton_self _⟩
  | worn hknown hobject hworn hlacks => simp [parts, hobject, hknown, hworn, hlacks]
  | doffed => exact List.mem_singleton_self _
  | granted hsplit hrun =>
    exact mem_each.mpr (.inl ⟨_, _, _, _, hsplit, hrun, rfl, rfl⟩)
  | carriedOut hsplit hgrant hrun hbound =>
    refine mem_each.mpr (.inr ⟨_, hgrant, mem_each.mpr (.inl ⟨_, _, _, _, hsplit, hrun, ?_, rfl⟩)⟩)
    simp [carrying?, hbound]
  | revoked hsplit hgrant hcarry hrun =>
    exact mem_each.mpr (.inr ⟨_, hgrant, mem_each.mpr (.inr ⟨_, hcarry,
      mem_each.mpr (.inl ⟨_, _, _, _, hsplit, hrun, rfl, rfl⟩)⟩)⟩)
  | called hobject hsig hcount => simp [parts, hobject, hsig, hcount]
  | completed hstock hfill hroot hsplit hrun =>
    exact mem_onward.mpr ⟨_, _, hstock, mem_onward.mpr ⟨_, _, hfill, mem_onward.mpr ⟨_, _, hroot,
      mem_each.mpr (.inl ⟨_, _, _, _, hsplit, hrun, rfl, rfl⟩)⟩⟩⟩

/-- The parts are what the activity begins. -/
theorem mem_parts_iff {part : Activity} {start : Machine} :
    (part, start) ∈ activity.parts machine ↔ activity.Begins machine part start :=
  ⟨begins_of_mem_parts, Begins.mem_parts⟩

end Activity

end Attire
