import Attire.Machine.Eval
import Mathlib.Data.List.Forall2
import Mathlib.Order.Basic

namespace Attire

/-! Rules for runs that may fail. -/

section Yields

variable {ε σ α β : Type}

/-- The run from `state` ends in an answer that meets `ok`, or in an error that meets `err`. -/
def Yields (run : EStateM ε σ α) (state : σ) (ok : α → σ → Prop) (err : ε → σ → Prop) : Prop :=
  match run state with
  | .ok answer state => ok answer state
  | .error error state => err error state

variable {run : EStateM ε σ α} {state : σ} {ok ok' : α → σ → Prop} {err err' : ε → σ → Prop}

@[simp] theorem yields_pure {answer : α} :
    Yields (pure answer : EStateM ε σ α) state ok err ↔ ok answer state := Iff.rfl

@[simp] theorem yields_throw {error : ε} :
    Yields (throw error : EStateM ε σ α) state ok err ↔ err error state := Iff.rfl

@[simp] theorem yields_get {ok : σ → σ → Prop} :
    Yields (get : EStateM ε σ σ) state ok err ↔ ok state state := Iff.rfl

@[simp] theorem yields_modifyGet {change : σ → α × σ} :
    Yields (modifyGet change : EStateM ε σ α) state ok err ↔
      ok (change state).1 (change state).2 := Iff.rfl

@[simp] theorem yields_modify {change : σ → σ} {ok : PUnit → σ → Prop} :
    Yields (modify change : EStateM ε σ PUnit) state ok err ↔ ok ⟨⟩ (change state) := Iff.rfl

@[simp] theorem yields_bind {next : α → EStateM ε σ β} {ok : β → σ → Prop} :
    Yields (run >>= next) state ok err ↔
      Yields run state (fun answer state => Yields (next answer) state ok err) err := by
  simp only [Yields, bind, EStateM.bind]
  cases run state <;> rfl

@[simp] theorem yields_map {change : α → β} {ok : β → σ → Prop} :
    Yields (change <$> run) state ok err ↔
      Yields run state (fun answer state => ok (change answer) state) err := by
  simp only [Yields, Functor.map, EStateM.map]
  cases run state <;> rfl

theorem run_bind_ok {next : α → EStateM ε σ β} {answer : α} {after : σ}
    (h : run state = .ok answer after) : (run >>= next) state = next answer after := by
  simp only [Bind.bind, EStateM.bind, h]

theorem run_forM_append {step : α → EStateM ε σ PUnit} {done rest : List α} {after : σ}
    (h : done.forM step state = .ok ⟨⟩ after) :
    (done ++ rest).forM step state = rest.forM step after := by
  have hsplit : (done ++ rest).forM step = (done.forM step >>= fun _ => rest.forM step) :=
    List.forM_append
  rw [hsplit, run_bind_ok h]

theorem Yields.imp (h : Yields run state ok err)
    (hok : ∀ answer state, ok answer state → ok' answer state)
    (herr : ∀ error state, err error state → err' error state) :
    Yields run state ok' err' := by
  unfold Yields at h ⊢
  cases hrun : run state with
  | ok answer next => rw [hrun] at h; exact hok _ _ h
  | error error next => rw [hrun] at h; exact herr _ _ h

theorem Yields.of_ok (h : Yields run state ok err) {answer : α} {next : σ}
    (hrun : run state = .ok answer next) : ok answer next := by
  simpa only [Yields, hrun] using h

theorem Yields.of_error (h : Yields run state ok err) {error : ε} {next : σ}
    (hrun : run state = .error error next) : err error next := by
  simpa only [Yields, hrun] using h

/-- What a run ends in is what it yields. -/
theorem Yields.result (h : Yields run state ok err) :
    Yields run state (fun answer next => ok answer next ∧ run state = .ok answer next)
      fun error next => err error next ∧ run state = .error error next := by
  unfold Yields at h ⊢
  cases hrun : run state with
  | ok answer next =>
    rw [hrun] at h
    exact ⟨h, rfl⟩
  | error error next =>
    rw [hrun] at h
    exact ⟨h, rfl⟩

theorem yields_eq_ok {answer : α} {next : σ} :
    Yields run state (fun found after => found = answer ∧ after = next) (fun _ _ => False) ↔
      run state = .ok answer next := by
  unfold Yields
  cases run state <;> simp

@[simp] theorem yields_tryCatch {handler : ε → EStateM ε σ α} :
    Yields (tryCatch run handler : EStateM ε σ α) state ok err ↔
      Yields run state ok fun error state => Yields (handler error) state ok err := by
  simp only [Yields, tryCatch, tryCatchThe, MonadExceptOf.tryCatch, EStateM.tryCatch]
  cases run state <;> rfl

/-- Every round adds its item to what was done. -/
theorem Yields.foldlM_done {step : β → α → EStateM ε σ β} {motive : List α → β → σ → Prop}
    {items : List α} {start : β} {state : σ} (hstart : motive [] start state)
    (hstep : ∀ done item rest current state, items = done ++ item :: rest →
      motive done current state →
      Yields (step current item) state (motive (done ++ [item])) err) :
    Yields (items.foldlM step start) state (motive items) err := by
  have hrest : ∀ (rest done : List α) (current : β) (state : σ), items = done ++ rest →
      motive done current state → Yields (rest.foldlM step current) state (motive items) err := by
    intro rest
    induction rest with
    | nil =>
      intro done current state heq hdone
      rw [heq, List.append_nil]
      exact hdone
    | cons item rest ih =>
      intro done current state heq hdone
      rw [List.foldlM_cons]
      refine yields_bind.mpr ((hstep done item rest current state heq hdone).imp ?_ fun _ _ h => h)
      exact fun next after hnext => ih (done ++ [item]) next after (by simp [heq]) hnext
  exact hrest items [] start state rfl hstart

theorem Yields.foldlM {step : β → α → EStateM ε σ β} {motive : β → σ → Prop} {items : List α}
    {start : β} {state : σ} (hstart : motive start state)
    (hstep : ∀ item ∈ items, ∀ current state, motive current state →
      Yields (step current item) state motive err) :
    Yields (items.foldlM step start) state motive err :=
  Yields.foldlM_done (motive := fun _ => motive) hstart fun _ item _ current state heq hcurrent =>
    hstep item (heq ▸ by simp) current state hcurrent

theorem Yields.mapM {action : α → EStateM ε σ β} {motive : σ → Prop} :
    ∀ {items : List α} {state : σ}, motive state →
      (∀ item ∈ items, ∀ state, motive state →
        Yields (action item) state (fun _ next => motive next) err) →
      Yields (items.mapM action) state (fun _ next => motive next) err
  | [], _, hstart, _ => hstart
  | item :: rest, state, hstart, hstep => by
    rw [List.mapM_cons]
    refine yields_bind.mpr ((hstep item (by simp) state hstart).imp ?_ fun _ _ h => h)
    exact fun _ next hnext => yields_bind.mpr (Yields.mapM hnext fun other hmem =>
      hstep other (List.mem_cons_of_mem _ hmem))

/-- The motive says what is still to be done. -/
theorem Yields.forM {step : α → EStateM ε σ PUnit} {motive : List α → σ → Prop} :
    ∀ {items : List α} {state : σ}, motive items state →
      (∀ item rest state, motive (item :: rest) state →
        Yields (step item) state (fun _ next => motive rest next) err) →
      Yields (items.forM step) state (fun _ next => motive [] next) err
  | [], _, hstart, _ => hstart
  | item :: rest, state, hstart, hstep =>
    yields_bind.mpr ((hstep item rest state hstart).imp
      (fun _ _ hnext => Yields.forM hnext hstep) fun _ _ h => h)

theorem Yields.filterMapM {step : α → EStateM ε σ (Option β)} {motive : σ → Prop}
    {p : σ → β → Prop} :
    ∀ {items : List α} {state : σ}, motive state →
      (∀ item ∈ items, ∀ state, motive state → Yields (step item) state
        (fun answer next => motive next ∧ (∀ other, p state other → p next other) ∧
          ∀ value, answer = some value → p next value) err) →
      Yields (items.filterMapM step) state
        (fun answers next => motive next ∧ (∀ other, p state other → p next other) ∧
          ∀ answer ∈ answers, p next answer) err
  | [], _, hstart, _ => ⟨hstart, fun _ h => h, nofun⟩
  | item :: rest, state, hstart, hstep => by
    rw [List.filterMapM_cons]
    refine yields_bind.mpr ((hstep item (by simp) state hstart).imp ?_ fun _ _ h => h)
    rintro answer next ⟨hnext, hkept, hanswer⟩
    have hrest := Yields.filterMapM hnext fun other hmem =>
      hstep other (List.mem_cons_of_mem _ hmem)
    cases answer with
    | none =>
      exact hrest.imp (fun _ _ ⟨hlast, hkept', hanswers⟩ =>
        ⟨hlast, fun other h => hkept' other (hkept other h), hanswers⟩) fun _ _ h => h
    | some value =>
      refine yields_bind.mpr (hrest.imp ?_ fun _ _ h => h)
      rintro answers last ⟨hlast, hkept', hanswers⟩
      refine ⟨hlast, fun other h => hkept' other (hkept other h), fun other hmem => ?_⟩
      rcases List.mem_cons.mp hmem with rfl | hmem
      · exact hkept' _ (hanswer _ rfl)
      · exact hanswers other hmem

end Yields

/-- A regime says which machines fit which worlds, where worlds only grow, and which errors a run may
end in. -/
structure Regime (World : Type) where
  fits : World → Machine → Prop
  fault : RuntimeError → Prop

namespace Regime

variable {World : Type} [Preorder World] {regime : Regime World} {world : World}
variable {machine : Machine} {α β : Type}

/-- The run keeps to the regime, and its answer meets `post`.  A run that is cut short promises
nothing. -/
def Safe (regime : Regime World) (world : World) (run : Run α) (machine : Machine)
    (post : World → Machine → α → Prop) : Prop :=
  Yields run machine
    (fun answer machine =>
      ∃ next, world ≤ next ∧ regime.fits next machine ∧ post next machine answer)
    (fun halt machine =>
      ∀ error, halt = .error error →
        regime.fault error ∧ ∃ next, world ≤ next ∧ regime.fits next machine)

variable {run : Run α} {post post' : World → Machine → α → Prop}

theorem Safe.pure {answer : α} (hfits : regime.fits world machine)
    (h : post world machine answer) :
    regime.Safe world (Pure.pure answer : Run α) machine post :=
  ⟨world, le_refl world, hfits, h⟩

theorem Safe.bind {next : α → Run β} {post' : World → Machine → β → Prop}
    (hrun : regime.Safe world run machine post)
    (hnext : ∀ world' machine' answer, world ≤ world' → regime.fits world' machine' →
      post world' machine' answer → regime.Safe world' (next answer) machine' post') :
    regime.Safe world (run >>= next) machine post' := by
  refine yields_bind.mpr (Yields.imp hrun ?_ fun _ _ h => h)
  rintro answer machine' ⟨world', hle, hfits, hpost⟩
  refine Yields.imp (hnext world' machine' answer hle hfits hpost) ?_ ?_
  · rintro result machine'' ⟨world'', hle', hfits', hpost'⟩
    exact ⟨world'', hle.trans hle', hfits', hpost'⟩
  · intro halt machine'' h error heq
    obtain ⟨hfault, world'', hle', hfits'⟩ := h error heq
    exact ⟨hfault, world'', hle.trans hle', hfits'⟩

theorem Safe.mono (hrun : regime.Safe world run machine post)
    (h : ∀ world' machine' answer, world ≤ world' → regime.fits world' machine' →
      post world' machine' answer → post' world' machine' answer) :
    regime.Safe world run machine post' := by
  refine Yields.imp hrun ?_ fun _ _ h => h
  rintro answer machine' ⟨world', hle, hfits, hpost⟩
  exact ⟨world', hle, hfits, h _ _ _ hle hfits hpost⟩

theorem Safe.map {change : α → β} {post' : World → Machine → β → Prop}
    (hrun : regime.Safe world run machine fun world machine answer =>
      post' world machine (change answer)) :
    regime.Safe world (change <$> run) machine post' :=
  yields_map.mpr hrun

theorem Safe.bind_get {next : Machine → Run β} {post : World → Machine → β → Prop}
    (h : regime.Safe world (next machine) machine post) :
    regime.Safe world (get >>= next) machine post := h

theorem Safe.modifyGet {change : Machine → α × Machine} {next : World} (hle : world ≤ next)
    (hfits : regime.fits next (change machine).2)
    (h : post next (change machine).2 (change machine).1) :
    regime.Safe world (MonadState.modifyGet change : Run α) machine post :=
  ⟨next, hle, hfits, h⟩

theorem Safe.fail {error : RuntimeError} (hfits : regime.fits world machine)
    (hfault : regime.fault error) :
    regime.Safe world (Machine.fail error : Run α) machine post := by
  rintro _ ⟨rfl⟩
  exact ⟨hfault, world, le_refl world, hfits⟩

theorem Safe.exhausted : regime.Safe world (Machine.exhausted : Run α) machine post := by
  rintro error ⟨⟩

theorem Safe.forM {γ : Type} {action : γ → Run PUnit} :
    ∀ {items : List γ} {world : World} {machine : Machine}, regime.fits world machine →
      (∀ item ∈ items, ∀ world' machine', world ≤ world' → regime.fits world' machine' →
        regime.Safe world' (action item) machine' fun _ _ _ => True) →
      regime.Safe world (items.forM action) machine fun _ _ _ => True
  | [], _, _, hfits, _ => Safe.pure hfits trivial
  | item :: rest, world, machine, hfits, h => by
    refine Safe.bind (h item (by simp) world machine (le_refl world) hfits) ?_
    intro world' machine' _ hle hfits' _
    exact Safe.forM hfits' fun other hmem world'' machine'' hle' =>
      h other (by simp [hmem]) world'' machine'' (hle.trans hle')

theorem Safe.foldlM {γ δ : Type} {step : δ → γ → Run δ} {motive : World → δ → Prop} :
    ∀ {items : List γ} {start : δ} {world : World} {machine : Machine},
      regime.fits world machine → motive world start →
      (∀ item ∈ items, ∀ current world' machine', world ≤ world' → regime.fits world' machine' →
        motive world' current → regime.Safe world' (step current item) machine'
          fun world _ answer => motive world answer) →
      regime.Safe world (items.foldlM step start) machine fun world _ answer => motive world answer
  | [], _, _, _, hfits, hstart, _ => Safe.pure hfits hstart
  | item :: rest, start, world, machine, hfits, hstart, h => by
    rw [List.foldlM_cons]
    refine Safe.bind (h item (by simp) start world machine (le_refl world) hfits hstart) ?_
    intro world' machine' answer hle hfits' hanswer
    exact Safe.foldlM hfits' hanswer fun other hmem current world'' machine'' hle' =>
      h other (by simp [hmem]) current world'' machine'' (hle.trans hle')

theorem Safe.mapM {γ : Type} {action : γ → Run α} (element : World → α → Prop)
    (hmono : ∀ {world world' answer}, world ≤ world' → element world answer →
      element world' answer) :
    ∀ {items : List γ} {world : World} {machine : Machine}, regime.fits world machine →
      (∀ item ∈ items, ∀ world' machine', world ≤ world' → regime.fits world' machine' →
        regime.Safe world' (action item) machine' fun world _ answer => element world answer) →
      regime.Safe world (items.mapM action) machine
        fun world _ answers => ∀ answer ∈ answers, element world answer
  | [], _, _, hfits, _ => Safe.pure hfits nofun
  | item :: rest, world, machine, hfits, h => by
    rw [List.mapM_cons]
    refine Safe.bind (h item (by simp) world machine (le_refl world) hfits) ?_
    intro world' machine' answer hle hfits' hanswer
    refine Safe.bind (Safe.mapM element hmono hfits' fun other hmem world'' machine'' hle' =>
      h other (by simp [hmem]) world'' machine'' (hle.trans hle')) ?_
    intro world'' machine'' answers hle' hfits'' hanswers
    refine Safe.pure hfits'' fun other hmem => ?_
    rcases List.mem_cons.mp hmem with rfl | hmem
    · exact hmono hle' hanswer
    · exact hanswers other hmem

/-- The same regime, whatever errors runs end in. -/
def lenient (regime : Regime World) : Regime World := { regime with fault := fun _ => True }

theorem Safe.lenient (h : regime.Safe world run machine post) :
    regime.lenient.Safe world run machine post :=
  Yields.imp h (fun _ _ h => h) fun _ _ h error heq => ⟨trivial, (h error heq).2⟩

/-! Runs inside of a frame. -/

def SafeIn (regime : Regime World) (world : World) (run : Exec α) (frame : Frame)
    (machine : Machine) (post : World → Machine → Frame → α → Prop) : Prop :=
  regime.Safe world (run.run frame) machine
    fun world machine answer => post world machine answer.2 answer.1

variable {frame : Frame} {exec : Exec α} {after after' : World → Machine → Frame → α → Prop}

theorem SafeIn.pure {answer : α} (hfits : regime.fits world machine)
    (h : after world machine frame answer) :
    regime.SafeIn world (Pure.pure answer : Exec α) frame machine after :=
  Safe.pure hfits h

theorem SafeIn.bind {next : α → Exec β} {after' : World → Machine → Frame → β → Prop}
    (hrun : regime.SafeIn world exec frame machine after)
    (hnext : ∀ world' machine' frame' answer, world ≤ world' → regime.fits world' machine' →
      after world' machine' frame' answer →
      regime.SafeIn world' (next answer) frame' machine' after') :
    regime.SafeIn world (exec >>= next) frame machine after' :=
  Safe.bind hrun fun world' machine' answer => hnext world' machine' answer.2 answer.1

theorem SafeIn.mono (hrun : regime.SafeIn world exec frame machine after)
    (h : ∀ world' machine' frame' answer, world ≤ world' → regime.fits world' machine' →
      after world' machine' frame' answer → after' world' machine' frame' answer) :
    regime.SafeIn world exec frame machine after' :=
  Safe.mono hrun fun world' machine' answer => h world' machine' answer.2 answer.1

theorem SafeIn.lift (hrun : regime.Safe world run machine fun world machine answer =>
      after world machine frame answer) :
    regime.SafeIn world (liftM run : Exec α) frame machine after :=
  Safe.bind hrun fun _ _ _ _ hfits h => Safe.pure hfits h

theorem SafeIn.bind_lift {next : α → Exec β} {after : World → Machine → Frame → β → Prop}
    (hrun : regime.Safe world run machine post)
    (hnext : ∀ world' machine' answer, world ≤ world' → regime.fits world' machine' →
      post world' machine' answer →
      regime.SafeIn world' (next answer) frame machine' after) :
    regime.SafeIn world (liftM run >>= next : Exec β) frame machine after := by
  have hlift : regime.SafeIn world (liftM run : Exec α) frame machine
      fun world machine frame' answer => frame' = frame ∧ post world machine answer :=
    SafeIn.lift (hrun.mono fun _ _ _ _ _ hpost => ⟨rfl, hpost⟩)
  refine SafeIn.bind hlift ?_
  rintro world' machine' _ answer hle hfits ⟨rfl, hpost⟩
  exact hnext world' machine' answer hle hfits hpost

theorem SafeIn.bind_get {next : Frame → Exec β} {after : World → Machine → Frame → β → Prop}
    (h : regime.SafeIn world (next frame) frame machine after) :
    regime.SafeIn world (get >>= next) frame machine after := h

theorem SafeIn.bind_getMachine {next : Machine → Exec β}
    {after : World → Machine → Frame → β → Prop}
    (h : regime.SafeIn world (next machine) frame machine after) :
    regime.SafeIn world (getThe Machine >>= next) frame machine after := h

theorem SafeIn.bind_currentHeap {next : Heap → Exec β}
    {after : World → Machine → Frame → β → Prop}
    (h : regime.SafeIn world (next machine.heap) frame machine after) :
    regime.SafeIn world (Machine.currentHeap >>= next) frame machine after := h

theorem SafeIn.bind_setSlot {slot : Nat} {value : Value} {next : PUnit → Exec β}
    {after : World → Machine → Frame → β → Prop}
    (h : regime.SafeIn world (next ⟨⟩) (frame.set slot value) machine after) :
    regime.SafeIn world (Machine.setSlot slot value >>= next) frame machine after := h

theorem SafeIn.mapM {γ : Type} {action : γ → Exec α} (keeps : World → Frame → Prop)
    (element : World → α → Prop)
    (hmono : ∀ {world world' answer}, world ≤ world' → element world answer →
      element world' answer) :
    ∀ {items : List γ} {world : World} {frame : Frame} {machine : Machine},
      regime.fits world machine → keeps world frame →
      (∀ item ∈ items, ∀ world' frame' machine', world ≤ world' → regime.fits world' machine' →
        keeps world' frame' → regime.SafeIn world' (action item) frame' machine'
          fun world _ frame answer => keeps world frame ∧ element world answer) →
      regime.SafeIn world (items.mapM action) frame machine
        fun world _ frame answers => keeps world frame ∧ ∀ answer ∈ answers, element world answer
  | [], world, frame, machine, hfits, hkeeps, _ => by
    rw [List.mapM_nil]
    exact SafeIn.pure hfits ⟨hkeeps, by simp⟩
  | item :: rest, world, frame, machine, hfits, hkeeps, h => by
    rw [List.mapM_cons]
    refine SafeIn.bind (h item (by simp) world frame machine (le_refl world) hfits hkeeps) ?_
    rintro world' machine' frame' answer hle hfits' ⟨hkeeps', hanswer⟩
    refine SafeIn.bind (SafeIn.mapM keeps element hmono hfits' hkeeps'
      fun other hmem world'' frame'' machine'' hle' =>
        h other (by simp [hmem]) world'' frame'' machine'' (hle.trans hle')) ?_
    rintro world'' machine'' frame'' answers hle' hfits'' ⟨hkeeps'', hanswers⟩
    refine SafeIn.pure hfits'' ⟨hkeeps'', ?_⟩
    intro other hmem
    rcases List.mem_cons.mp hmem with rfl | hmem
    · exact hmono hle' hanswer
    · exact hanswers other hmem

theorem SafeIn.exhausted :
    regime.SafeIn world (liftM (Machine.exhausted : Run α) : Exec α) frame machine after :=
  SafeIn.lift Safe.exhausted

end Regime

end Attire

namespace Attire

/-! Rules for runs that do not fail. -/

namespace Machine

/-- The run ends in an answer. -/
def Succeeds {α : Type} (run : Run α) (machine : Machine) (post : α → Machine → Prop) : Prop :=
  Yields run machine post fun _ _ => False

namespace Succeeds

variable {α β γ : Type} {run : Run α} {machine : Machine} {mid post : α → Machine → Prop}

theorem imp (h : Succeeds run machine mid)
    (hpost : ∀ answer after, mid answer after → post answer after) : Succeeds run machine post :=
  Yields.imp h hpost fun _ _ h => h

theorem bind {next : α → Run β} {post : β → Machine → Prop} (h : Succeeds run machine mid)
    (hnext : ∀ answer after, mid answer after → Succeeds (next answer) after post) :
    Succeeds (run >>= next) machine post :=
  yields_bind.mpr (h.imp hnext)

theorem bind_get {next : Machine → Run β} {post : β → Machine → Prop}
    (h : Succeeds (next machine) machine post) : Succeeds (get >>= next) machine post :=
  yields_bind.mpr h

theorem exists_ok (h : Succeeds run machine post) :
    ∃ answer after, run machine = .ok answer after ∧ post answer after := by
  cases hrun : run machine with
  | ok answer after => exact ⟨answer, after, rfl, Yields.of_ok h hrun⟩
  | error halt after => exact (Yields.of_error h hrun).elim

theorem mapM {action : γ → Run α} (keeps : Machine → Prop) (relates : γ → α → Prop) :
    ∀ {items : List γ} {machine : Machine}, keeps machine →
      (∀ item ∈ items, ∀ machine, keeps machine →
        Succeeds (action item) machine fun answer after => relates item answer ∧ keeps after) →
      Succeeds (items.mapM action) machine fun answers after =>
        List.Forall₂ relates items answers ∧ keeps after
  | [], _, hkeeps, _ => ⟨.nil, hkeeps⟩
  | item :: rest, machine, hkeeps, h => by
    rw [List.mapM_cons]
    refine (h item (List.mem_cons_self ..) machine hkeeps).bind fun answer after hanswer => ?_
    refine (mapM keeps relates hanswer.2 fun other hmem =>
      h other (List.mem_cons_of_mem _ hmem)).bind fun answers after' hanswers => ?_
    exact ⟨.cons hanswer.1 hanswers.1, hanswers.2⟩

/-- Every round of a loop adds its item to what was done. -/
theorem foldlM {step : β → γ → Run β} {motive : List γ → β → Machine → Prop} {items : List γ}
    {start : β} (hstart : motive [] start machine)
    (hstep : ∀ done item rest current machine, items = done ++ item :: rest →
      motive done current machine →
      Succeeds (step current item) machine (motive (done ++ [item]))) :
    Succeeds (items.foldlM step start) machine (motive items) :=
  Yields.foldlM_done hstart hstep

theorem forM {action : γ → Run PUnit} {motive : List γ → Machine → Prop} {items : List γ}
    (hstart : motive [] machine)
    (hstep : ∀ done item rest machine, items = done ++ item :: rest → motive done machine →
      Succeeds (action item) machine fun _ after => motive (done ++ [item]) after) :
    Succeeds (items.forM action) machine fun _ after => motive items after := by
  have hrest : ∀ (rest done : List γ) (machine : Machine), items = done ++ rest →
      motive done machine →
      Succeeds (rest.forM action) machine fun _ after => motive items after := by
    intro rest
    induction rest with
    | nil =>
      intro done machine heq hdone
      rw [heq, List.append_nil]
      exact hdone
    | cons item rest ih =>
      intro done machine heq hdone
      refine (hstep done item rest machine heq hdone).bind fun _ after hnext => ?_
      exact ih (done ++ [item]) after (by simp [heq]) hnext
  exact hrest items [] machine rfl hstart

theorem forM_map {δ : Type} {action : γ → Run PUnit} {change : δ → γ} {items : List δ}
    {post : PUnit → Machine → Prop}
    (h : Succeeds (items.forM fun item => action (change item)) machine post) :
    Succeeds ((items.map change).forM action) machine post := by
  rw [List.forM_eq_forM, List.forM_map]
  exact h

end Succeeds

end Machine

end Attire
