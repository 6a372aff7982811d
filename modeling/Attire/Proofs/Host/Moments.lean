import Attire.Proofs.Host.Effects
import Attire.Proofs.Runs.Activities

namespace Attire

open Machine

/-! What holds whenever something begins in the course of what a host does. -/

section

variable {permit : Permit} {part : Code}

theorem Code.Within.operand {code : Code} (h : code.Within permit)
    (hmem : part ∈ code.operands) : part.Within permit := by
  cases code with
  | num | text | bool | null | «default» | «local» | this | caller | const | new | newArray | newMap
  | newSet | random | suggest => cases hmem
  | tee | getField | tupleGet | not | neg | cast | clone | len | is =>
    obtain rfl := List.mem_singleton.mp hmem
    exact h
  | logic =>
    obtain rfl := List.mem_singleton.mp hmem
    exact h.1
  | index | arith | concat | compare | equal | merge | has =>
    rcases List.mem_pair.mp hmem with rfl | rfl
    · exact h.1
    · exact h.2
  | call =>
    rcases List.mem_cons.mp hmem with rfl | hmem
    · exact h.2.1
    · exact Code.allWithin_iff.mp h.2.2 part hmem
  | superCall => exact Code.allWithin_iff.mp h.2 part hmem
  | array | tuple => exact Code.allWithin_iff.mp h part hmem

theorem StepCode.Within.operand {code : StepCode} (h : code.Within permit)
    (hmem : part ∈ code.operands) : part.Within permit := by
  cases code with
  | extend | retract =>
    obtain rfl := List.mem_singleton.mp hmem
    exact h.2
  | call =>
    rcases List.mem_cons.mp hmem with rfl | hmem
    · exact h.1
    · exact Code.allWithin_iff.mp h.2 part hmem

theorem Instr.Within.operand {instr : Instr} (h : instr.Within permit)
    (hmem : part ∈ instr.operands) : part.Within permit := by
  cases instr with
  | «while» | «break» | «continue» | release => cases hmem
  | eval | store | «return» =>
    obtain rfl := List.mem_singleton.mp hmem
    exact h
  | branch | forEach =>
    obtain rfl := List.mem_singleton.mp hmem
    exact h.1
  | enforce =>
    obtain rfl := List.mem_singleton.mp hmem
    exact h.2
  | extend | retract =>
    obtain rfl := List.mem_singleton.mp hmem
    exact h.2.2
  | append | remove =>
    rcases List.mem_pair.mp hmem with rfl | rfl
    · exact h.2.1
    · exact h.2.2
  | setField =>
    rcases List.mem_pair.mp hmem with rfl | rfl
    · exact h.2.2.1
    · exact h.2.2.2
  | setIndex =>
    rcases List.mem_cons.mp hmem with rfl | hmem
    · exact h.2.1
    · rcases List.mem_pair.mp hmem with rfl | rfl
      · exact h.2.2.1
      · exact h.2.2.2

end

theorem Discipline.AdmitsFrame.enterRound {World : Type} [Preorder World]
    {discipline : Discipline World} {world : World} {frame : Frame} {first : Nat}
    {second : Option Nat} {round : Value × Option Value} (h : discipline.AdmitsFrame world frame)
    (hround : ∀ value, value = round.1 ∨ round.2 = some value → discipline.Admits world value) :
    discipline.AdmitsFrame world (frame.enterRound first second round) := by
  have hfirst : discipline.AdmitsFrame world (frame.set first round.1) :=
    h.set (hround round.1 (.inl rfl))
  unfold Frame.enterRound
  split
  case h_1 hsecond => exact hfirst.set (hround _ (.inr hsecond))
  case h_2 => exact hfirst

namespace Discipline.Keeps

variable {World : Type} [Preorder World] {discipline : Discipline World} {world : World}
variable {machine : Machine} {steps : Nat} {step : Step}

/-! The steps of a batch. -/

theorem grant (h : discipline.Keeps steps) (hwrite : discipline.permit.write)
    (hfits : discipline.fits world machine) (hstep : discipline.AdmitsStep world step) :
    discipline.Safe world (Machine.grant steps step) machine fun _ _ _ => True := by
  unfold Machine.grant
  split
  · exact h.extend hfits hwrite hstep.1 hstep.2
  · exact Regime.Safe.pure hfits trivial

theorem carryOut (h : discipline.Keeps steps) (hwrite : discipline.permit.write)
    (hfits : discipline.fits world machine) (hstep : discipline.AdmitsStep world step) :
    discipline.Safe world (Machine.carryOut steps step) machine fun _ _ _ => True := by
  unfold Machine.carryOut
  split
  · obtain ⟨htarget, hcaller, hargs⟩ := admits_step_call.mp hstep
    refine Regime.Safe.bind_get ?_
    split
    case h_1 routine hbound =>
      have hroutine := discipline.bound_within hfits (discipline.call_of_write hwrite) hbound
      exact Regime.Safe.bind (h.invoke hfits hroutine htarget hcaller hargs)
        fun _ _ _ _ hfits' _ => Regime.Safe.pure hfits' trivial
    case h_2 => exact Regime.Safe.pure hfits trivial
  · exact Regime.Safe.pure hfits trivial

theorem revoke (h : discipline.Keeps steps) (hwrite : discipline.permit.write)
    (hfits : discipline.fits world machine) (hstep : discipline.AdmitsStep world step) :
    discipline.Safe world (Machine.revoke steps step) machine fun _ _ _ => True := by
  unfold Machine.revoke
  split
  · exact h.retract hfits hwrite hstep.2
  · exact Regime.Safe.pure hfits trivial

theorem initializePending (h : discipline.Keeps steps) {ref : Ref} {field : PendingField}
    (hfits : discipline.fits world machine) (hwritable : discipline.writable world ref)
    (hentity : discipline.entity world (.object ref)) (hstore : discipline.permit.store field.key)
    (hroutine : ∀ routine, field.initializer = some routine → routine.Within discipline.permit) :
    discipline.Safe world (Machine.initializePending steps ref field) machine fun _ _ _ => True := by
  have hvalue : ∀ {value : Run Value},
      discipline.Safe world value machine (fun world _ value => discipline.Admits world value) →
      discipline.Safe world (value >>= initializeField ref field.key) machine fun _ _ _ => True :=
    fun hvalue => Regime.Safe.bind hvalue fun _ _ _ hle hfits' hadmits =>
      discipline.initialize_safe hfits' (discipline.writable_mono hle hwritable) hstore hadmits
  unfold Machine.initializePending
  split
  case h_1 routine hinitializer =>
    exact hvalue (h.invoke hfits (hroutine routine hinitializer) hentity trivial
      (List.forall_mem_nil _))
  case h_2 => exact hvalue (safe_defaultValue true field.ty hfits)

/-- One pass over the steps of a batch. -/
theorem pass {action : Step → Run PUnit} {batch : List Step}
    (haction : ∀ {world : World} {machine : Machine} {step : Step}, discipline.fits world machine →
      discipline.AdmitsStep world step →
      discipline.Safe world (action step) machine fun _ _ _ => True)
    (hfits : discipline.fits world machine)
    (hbatch : ∀ step ∈ batch, discipline.AdmitsStep world step) :
    discipline.Safe world (batch.forM action) machine fun _ _ _ => True :=
  Regime.Safe.forM hfits fun step hmem _ _ hle hfits' =>
    haction hfits' ((hbatch step hmem).mono hle)

end Discipline.Keeps

namespace Workspace

variable {workspace : Workspace} {stage : Stage} {machine start : Machine}
variable {activity part : Activity}

/-- The code is permitted, and the values mention what there is. -/
def Sound.Admits (h : workspace.Sound) (stage : Stage) : Activity → Prop
  | .eval _ code frame => h.full.discipline.AdmitsFrame stage frame ∧ code.Within h.full.permit
  | .evalStep _ code frame => h.full.discipline.AdmitsFrame stage frame ∧ code.Within h.full.permit
  | .exec _ instr frame => h.full.discipline.AdmitsFrame stage frame ∧ instr.Within h.full.permit
  | .block _ body frame =>
    h.full.discipline.AdmitsFrame stage frame ∧ Instr.AllWithin h.full.permit body
  | .repeatWhile _ cond body frame =>
    h.full.discipline.AdmitsFrame stage frame ∧ cond.Within h.full.permit ∧
      Instr.AllWithin h.full.permit body
  | .repeatFor _ _ _ body rounds frame =>
    h.full.discipline.AdmitsFrame stage frame ∧ Instr.AllWithin h.full.permit body ∧
      ∀ round ∈ rounds, ∀ value, value = round.1 ∨ round.2 = some value →
        h.full.discipline.Admits stage value
  | .invoke _ routine this caller args =>
    routine.Within h.full.permit ∧ h.full.discipline.Admits stage this ∧
      h.full.discipline.Admits stage caller ∧ ∀ arg ∈ args, h.full.discipline.Admits stage arg
  | .dispatch _ target _ caller args _ =>
    h.full.discipline.Admits stage target ∧ h.full.discipline.Admits stage caller ∧
      ∀ arg ∈ args, h.full.discipline.Admits stage arg
  | .call _ ref _ caller args =>
    stage.outline.Names (.object ref) ∧ h.full.discipline.Admits stage caller ∧
      ∀ arg ∈ args, h.full.discipline.Admits stage arg
  | .initializeMissing _ ref | .remanifest _ ref | .extend _ ref _ | .retract _ ref _ =>
    stage.outline.Names (.object ref)
  | .enforce _ batch => ∀ step ∈ batch, h.full.discipline.AdmitsStep stage step
  | .instantiate .. | .restore .. => True

/-- What a part of a run asks for where it begins.  An object that awaits its manifest does not fit
what it wears yet. -/
def Sound.Allows (h : workspace.Sound) (stage : Stage) (machine : Machine) : Activity → Prop
  | .remanifest _ ref =>
    h.full.regime.Safe stage (installManifest ref >>= fun _ => pure ref) machine
      fun next _ ref => next.outline.Names (.object ref)
  | activity => h.full.Fits stage machine ∧ h.Admits stage activity

theorem Sound.allows_remanifest (h : workspace.Sound) {ref : Ref} {steps : Nat}
    (href : stage.outline.Names (.object ref))
    (hinstalls : h.full.regime.Safe stage (installManifest ref) machine fun _ _ _ => True) :
    h.Allows stage machine (.remanifest steps ref) :=
  Regime.Safe.bind hinstalls fun _ _ _ hle hfits _ => Regime.Safe.pure hfits (href.mono hle.2)

/-- What an allowed part of a run begins is allowed there. -/
theorem Sound.allows_begins (h : workspace.Sound) (hallows : h.Allows stage machine activity)
    (hbegins : activity.Begins machine part start) : ∃ next, h.Allows next start part := by
  have hkeeps := h.full.discipline.keeps
  have hevals : ∀ {steps done rest values operand frame frame'} {codes : List Code},
      h.full.Fits stage machine → h.full.discipline.AdmitsFrame stage frame →
      (∀ code ∈ codes, code.Within h.full.permit) → codes = done ++ operand :: rest →
      (done.mapM (Machine.eval steps)).run frame machine = .ok (values, frame') start →
      ∃ next, h.Allows next start (.eval steps operand frame') := by
    intro steps done rest values operand frame frame' codes hfits hframe hcodes hsplit hrun
    have hdone : Code.AllWithin h.full.permit done :=
      Code.allWithin_iff.mpr fun code hmem => hcodes code (by simp [hsplit, hmem])
    obtain ⟨next, -, hfits', hframe', -⟩ := ((hkeeps steps).evalAll hfits hframe hdone).of_ok hrun
    exact ⟨next, hfits', hframe', hcodes operand (by simp [hsplit])⟩
  cases hbegins with
  | operand hsplit hrun =>
    obtain ⟨hfits, hframe, hcode⟩ := hallows
    exact hevals hfits hframe (fun _ => hcode.operand) hsplit hrun
  | stepOperand hsplit hrun =>
    obtain ⟨hfits, hframe, hcode⟩ := hallows
    exact hevals hfits hframe (fun _ => hcode.operand) hsplit hrun
  | instrOperand hsplit hrun =>
    obtain ⟨hfits, hframe, hinstr⟩ := hallows
    exact hevals hfits hframe (fun _ => hinstr.operand) hsplit hrun
  | right hrun =>
    obtain ⟨hfits, hframe, hleft, hright⟩ := hallows
    obtain ⟨next, -, hfits', hframe', -⟩ := ((hkeeps _).eval hfits hframe hleft).of_ok hrun
    exact ⟨next, hfits', hframe', hright⟩
  | @part _ _ done _ code _ _ _ _ _ hsplit hrun =>
    obtain ⟨hfits, hframe, hparts⟩ := hallows
    rw [hsplit] at hparts
    have hmem := StepCode.allWithin_iff.mp hparts
    have hdone : StepCode.AllWithin h.full.permit done :=
      StepCode.allWithin_iff.mpr fun other hother => hmem other (by simp [hother])
    obtain ⟨next, -, hfits', hframe', -⟩ := ((hkeeps _).evalSteps hfits hframe hdone).of_ok hrun
    exact ⟨next, hfits', hframe', hmem code (by simp)⟩
  | dispatched hrun =>
    obtain ⟨hfits, hframe, -, hobject, hargs⟩ := hallows
    have hcodes : Code.AllWithin h.full.permit (_ :: _) := ⟨hobject, hargs⟩
    obtain ⟨next, -, hfits', hframe', hvalues⟩ :=
      ((hkeeps _).evalAll hfits hframe hcodes).of_ok hrun
    exact ⟨next, hfits', hvalues _ (by simp), hframe'.this,
      fun value hmem => hvalues value (List.mem_cons_of_mem _ hmem)⟩
  | supered hrun hroutine =>
    obtain ⟨hfits, hframe, hsuper, hargs⟩ := hallows
    obtain ⟨next, -, hfits', hframe', hvalues⟩ :=
      ((hkeeps _).evalAll hfits hframe hargs).of_ok hrun
    obtain ⟨last, hle, hfits'', hwithin⟩ :=
      (h.full.discipline.super_safe hfits' hsuper).of_ok hroutine
    exact ⟨last, hfits'', hwithin, hframe'.this.mono hle, hframe'.caller.mono hle,
      fun value hmem => (hvalues value hmem).mono hle⟩
  | new => exact ⟨stage, hallows.1, trivial⟩
  | branch hrun =>
    obtain ⟨hfits, hframe, hcond, hyes, hno⟩ := hallows
    obtain ⟨next, -, hfits', hframe', -⟩ := ((hkeeps _).eval hfits hframe hcond).of_ok hrun
    refine ⟨next, hfits', hframe', ?_⟩
    split
    · exact hyes
    · exact hno
  | loop => exact ⟨stage, hallows⟩
  | each hrun =>
    obtain ⟨hfits, hframe, hsource, hbody⟩ := hallows
    obtain ⟨next, -, hfits', hframe', -⟩ := ((hkeeps _).eval hfits hframe hsource).of_ok hrun
    exact ⟨next, hfits', hframe', hbody, fun round hmem value hvalue =>
      Discipline.admits_round hfits' hmem hvalue⟩
  | extended hrun | retracted hrun =>
    obtain ⟨hfits, hframe, -, -, htarget⟩ := hallows
    obtain ⟨next, -, hfits', -, hvalue⟩ := ((hkeeps _).eval hfits hframe htarget).of_ok hrun
    exact ⟨next, hfits', hvalue⟩
  | enforced hrun =>
    obtain ⟨hfits, hframe, -, hcode⟩ := hallows
    obtain ⟨next, -, hfits', -, hvalue⟩ := ((hkeeps _).eval hfits hframe hcode).of_ok hrun
    exact ⟨next, hfits', Discipline.admits_suggestion.mp hvalue⟩
  | first =>
    obtain ⟨hfits, hframe, hinstr, -⟩ := hallows
    exact ⟨stage, hfits, hframe, hinstr⟩
  | rest hrun =>
    obtain ⟨hfits, hframe, hinstr, hrest⟩ := hallows
    obtain ⟨next, -, hfits', hframe', -⟩ := ((hkeeps _).exec hfits hframe hinstr).of_ok hrun
    exact ⟨next, hfits', hframe', hrest⟩
  | cond =>
    obtain ⟨hfits, hframe, hcond, -⟩ := hallows
    exact ⟨stage, hfits, hframe, hcond⟩
  | round hrun _ =>
    obtain ⟨hfits, hframe, hcond, hbody⟩ := hallows
    obtain ⟨next, -, hfits', hframe', -⟩ := ((hkeeps _).eval hfits hframe hcond).of_ok hrun
    exact ⟨next, hfits', hframe', hbody⟩
  | again hrun _ hround _ =>
    obtain ⟨hfits, hframe, hcond, hbody⟩ := hallows
    obtain ⟨next, -, hfits', hframe', -⟩ := ((hkeeps _).eval hfits hframe hcond).of_ok hrun
    obtain ⟨last, -, hfits'', hframe'', -⟩ :=
      ((hkeeps _).execBlock hfits' hframe' hbody).of_ok hround
    exact ⟨last, hfits'', hframe'', hcond, hbody⟩
  | roundOf =>
    obtain ⟨hfits, hframe, hbody, hrounds⟩ := hallows
    exact ⟨stage, hfits, hframe.enterRound (hrounds _ (by simp)), hbody⟩
  | nextOf hround _ =>
    obtain ⟨hfits, hframe, hbody, hrounds⟩ := hallows
    obtain ⟨next, hle, hfits', hframe', -⟩ := ((hkeeps _).execBlock hfits
      (hframe.enterRound (hrounds _ (by simp))) hbody).of_ok hround
    exact ⟨next, hfits', hframe', hbody, fun round hmem value hvalue =>
      (hrounds round (List.mem_cons_of_mem _ hmem) value hvalue).mono hle⟩
  | body hdepth =>
    obtain ⟨hfits, hroutine, hthis, hcaller, hargs⟩ := hallows
    exact ⟨h.full.discipline.enter stage, h.full.discipline.enter_fits hfits hdepth,
      Discipline.admitsFrame_ofRoutine hthis.enter hcaller.enter
        fun arg hmem => (hargs arg hmem).enter, hroutine⟩
  | bound hbound =>
    obtain ⟨hfits, htarget, hcaller, hargs⟩ := hallows
    exact ⟨stage, hfits, h.full.discipline.bound_within hfits trivial hbound, htarget, hcaller,
      hargs⟩
  | @initializer steps ref done rest field routine _ _ hsplit hrun hinitializer =>
    obtain ⟨hfits, href⟩ : h.full.Fits stage machine ∧ stage.outline.Names (.object ref) := hallows
    obtain ⟨object, hobject⟩ := Heap.object?_of_names (hfits.sound.layout.symm ▸ href)
    have hpending : ∀ other ∈ done ++ field :: rest, other ∈ machine.pendingFields object := by
      rw [← hsplit, Machine.pending, hobject]
      exact fun _ hmem => hmem
    have hdone : h.full.regime.Safe stage (done.forM (initializePending steps ref)) machine
        fun _ _ _ => True := by
      refine Regime.Safe.forM hfits fun other hmem next _ hle hfits' => ?_
      have hother := hpending other (by simp [hmem])
      exact (hkeeps _).initializePending hfits' (Nat.zero_le _) (href.mono hle.2)
        (h.full.discipline.pending_store hfits hobject hother)
        fun _ => h.full.discipline.initializer_within hfits hobject hother
    obtain ⟨next, hle, hfits', -⟩ := hdone.of_ok hrun
    exact ⟨next, hfits', h.full.discipline.initializer_within hfits hobject
      (hpending field (by simp)) hinitializer, href.mono hle.2, trivial, List.forall_mem_nil _⟩
  | missing hrun =>
    obtain ⟨next, -, hfits, href⟩ := (yields_bind.mp hallows).of_ok hrun
    exact ⟨next, hfits, href⟩
  | made hcls hrun =>
    have hregistry : machine.classes = workspace.machine.classes := hallows.1.sound.registry
    have hcreate := Footing.safe_createObject hallows.1 (hregistry ▸ hcls)
    have hinstalls := (yields_bind.mp hcreate).of_ok hrun
    exact ⟨stage, Regime.Safe.mono hinstalls fun _ _ _ _ _ hnew => hnew.1⟩
  | worn hcls hobject _ hnew =>
    obtain ⟨hfits, href⟩ := hallows
    have hregistry : machine.classes = workspace.machine.classes := hfits.sound.registry
    have hknown : workspace.machine.classes.contains _ := hregistry ▸ hcls
    exact ⟨stage, h.allows_remanifest href
      (yields_bind.mp (h.full.discipline.extend_safe hfits trivial hknown hcls hobject hnew))⟩
  | doffed =>
    obtain ⟨hfits, href⟩ := hallows
    exact ⟨stage, h.allows_remanifest href
      (yields_bind.mp (h.full.discipline.retract_safe hfits trivial))⟩
  | granted hsplit hrun =>
    obtain ⟨hfits, hbatch⟩ := hallows
    rw [hsplit] at hbatch
    obtain ⟨hdone, hrest⟩ := List.forall_mem_append.mp hbatch
    obtain ⟨next, hle, hfits', -⟩ :=
      (Discipline.Keeps.pass ((hkeeps _).grant trivial) hfits hdone).of_ok hrun
    exact ⟨next, hfits', ((hrest _ List.mem_cons_self).mono hle).2⟩
  | carriedOut hsplit hgrant hrun hbound =>
    obtain ⟨hfits, hbatch⟩ := hallows
    obtain ⟨next, hle, hfits', -⟩ :=
      (Discipline.Keeps.pass ((hkeeps _).grant trivial) hfits hbatch).of_ok hgrant
    rw [hsplit] at hbatch
    obtain ⟨hdone, hrest⟩ := List.forall_mem_append.mp hbatch
    obtain ⟨last, hle', hfits'', -⟩ := (Discipline.Keeps.pass ((hkeeps _).carryOut trivial) hfits'
      fun step hmem => (hdone step hmem).mono hle).of_ok hrun
    obtain ⟨htarget, hcaller, hargs⟩ :=
      Discipline.admits_step_call.mp ((hrest _ List.mem_cons_self).mono (hle.trans hle'))
    exact ⟨last, hfits'', h.full.discipline.bound_within hfits'' trivial hbound, htarget, hcaller,
      hargs⟩
  | revoked hsplit hgrant hcarry hrun =>
    obtain ⟨hfits, hbatch⟩ := hallows
    obtain ⟨granted, hle, hfits₁, -⟩ :=
      (Discipline.Keeps.pass ((hkeeps _).grant trivial) hfits hbatch).of_ok hgrant
    obtain ⟨called, hle₁, hfits₂, -⟩ := (Discipline.Keeps.pass ((hkeeps _).carryOut trivial) hfits₁
      fun step hmem => (hbatch step hmem).mono hle).of_ok hcarry
    rw [hsplit] at hbatch
    obtain ⟨hdone, hrest⟩ := List.forall_mem_append.mp hbatch
    obtain ⟨last, hle₂, hfits₃, -⟩ := (Discipline.Keeps.pass ((hkeeps _).revoke trivial) hfits₂
      fun step hmem => (hdone step hmem).mono (hle.trans hle₁)).of_ok hrun
    exact ⟨last, hfits₃, ((hrest _ List.mem_cons_self).mono ((hle.trans hle₁).trans hle₂)).2⟩
  | called hobject _ _ =>
    obtain ⟨hfits, href, hcaller, hargs⟩ := hallows
    exact ⟨stage, hfits, href, hcaller, hargs⟩
  | @completed _ _ _ objects done rest entry ref _ _ _ _ _ _ hstock hfill hroot hsplit hrun =>
    obtain ⟨stocked, hle, hfits, hshells, hobjects⟩ :=
      (Footing.safe_stock h.named hallows.1 _).of_ok hstock
    obtain ⟨filled, hle₁, hfits₁, -⟩ :=
      (Footing.safe_fill h.named hfits hshells (fun entry hmem => (hobjects entry hmem).2) _).of_ok
        hfill
    obtain ⟨rooted, hle₂, hfits₂, -⟩ :=
      (Footing.safe_value h.named _ hfits₁ (hshells.mono hle₁.2)).of_ok hroot
    have hnames : ∀ entry ∈ objects, rooted.outline.Names (.object entry.1) ∧
        h.full.floor ≤ entry.1.address := fun entry hmem =>
      ⟨(hobjects entry hmem).1.mono (hle₁.trans hle₂).2, (hobjects entry hmem).2⟩
    rw [hsplit] at hnames
    obtain ⟨hdone, hrest⟩ := List.forall_mem_append.mp hnames
    obtain ⟨last, hle₃, hfits₃, -⟩ := (Footing.safe_missing hfits₂ _ hdone).of_ok hrun
    exact ⟨last, hfits₃, (hrest (ref, entry) List.mem_cons_self).1.mono hle₃.2⟩

/-- A machine on the way is as good as one between operations. -/
theorem Sound.moment (h : workspace.Sound) (hfits : h.full.Fits stage machine) :
    Sound { workspace with machine } ∧
      ∀ value, h.full.discipline.Admits stage value → machine.Knows value := by
  have hlayout : machine.heap.outline = stage.outline := hfits.sound.layout
  refine ⟨h.with_machine (hlayout ▸ hfits.sound) (hlayout ▸ hfits.later), fun value hvalue => ?_⟩
  rw [Machine.Knows, hlayout, hfits.sound.registry]
  exact Footing.admits_iff.mp hvalue

end Workspace

/-- What a host may begin on a machine.  Values that it passes were made by the machine. -/
def Machine.Launches (machine : Machine) : Activity → Prop
  | .instantiate .. | .restore .. => True
  | .extend _ ref _ | .retract _ ref _ => machine.Knows (.object ref)
  | .enforce _ batch => machine.Knows (.suggestion machine.suggestions batch)
  | .invoke _ routine this caller args =>
    machine.classes.Has routine ∧ machine.Knows this ∧ machine.Knows caller ∧
      ∀ arg ∈ args, machine.Knows arg
  | .dispatch _ target _ caller args _ =>
    machine.Knows target ∧ machine.Knows caller ∧ ∀ arg ∈ args, machine.Knows arg
  | .call _ ref _ caller args =>
    machine.Knows (.object ref) ∧ machine.Knows caller ∧ ∀ arg ∈ args, machine.Knows arg
  | .eval .. | .evalStep .. | .exec .. | .block .. | .repeatWhile .. | .repeatFor ..
  | .initializeMissing .. | .remanifest .. => False

namespace Workspace

variable {workspace : Workspace} {machine : Machine} {activity part : Activity}

/-- In the course of something that a host does, the part of it begins on the machine. -/
def Occurs (workspace : Workspace) (part : Activity) (machine : Machine) : Prop :=
  ∃ activity calls, workspace.machine.Launches activity ∧
    activity.Comprises workspace.machine calls part machine

theorem Sound.allows_launched (h : workspace.Sound)
    (hlaunches : workspace.machine.Launches activity) :
    h.Allows workspace.stage workspace.machine activity := by
  cases activity with
  | instantiate | restore => exact ⟨h.full_fits, trivial⟩
  | extend | retract => exact ⟨h.full_fits, hlaunches⟩
  | enforce steps batch =>
    have hbatch : h.full.discipline.Admits workspace.stage
        (.suggestion workspace.machine.suggestions batch) := hlaunches
    exact ⟨h.full_fits, Discipline.admits_suggestion.mp hbatch⟩
  | invoke => exact ⟨h.full_fits, h.within_of_has hlaunches.1, hlaunches.2⟩
  | dispatch | call => exact ⟨h.full_fits, hlaunches⟩
  | _ => exact hlaunches.elim

/-- Whatever begins in the course of what a host does is allowed where it begins. -/
theorem Sound.allows_occurring (h : workspace.Sound) (hoccurs : workspace.Occurs part machine) :
    ∃ stage, h.Allows stage machine part := by
  obtain ⟨activity, calls, hlaunches, hcomprises⟩ := hoccurs
  induction hcomprises with
  | itself => exact ⟨_, h.allows_launched hlaunches⟩
  | begins _ hbegins ih =>
    obtain ⟨stage, hallows⟩ := ih
    exact h.allows_begins hallows hbegins

end Workspace

end Attire
