import Attire.Proofs.Lowering.Placement

namespace Attire

/-! The compilation gives every variable of a checked body a slot of its own. -/

namespace Lower

open CheckContext

variable {α : Type} {ctx after : CheckContext} {fabrics : Fabrics} {locals : Locals}
variable {outer : List (Table String Nat)} {state next : LoweringState} {stmt : Stmt}

/-- What becomes of a statement that has no blocks and declares nothing.  Containers are changed where
they are. -/
structure Turns (fabrics : Fabrics) (locals : Locals) (stmt : Stmt) (instr : Instr)
    (own : List Nat) : Prop where
  becomes : Becomes fabrics locals stmt instr own
  inPlace {op : CompoundOp} {target value : Expr} {ty : Ty} {span : Span} :
    stmt = .compound op target value span → target.ty? = some ty → ty.isContainer →
    ∃ container content, instr = .append container content ∨ instr = .remove container content

theorem Turns.confined : Confined (Turns fabrics) := fun h _ hmem => h.becomes.placed hmem

/-- What holds between two statements of a block.  The slots of the blocks around it stay as they
are. -/
structure Places (locals : Locals) (outer : List (Table String Nat)) (state : LoweringState) :
    Prop where
  bound : locals.Bound state
  nested : ∃ inner, state.scopes = inner :: outer
  found : state.missing = none
  settled : state.slots.Settled
  owned : ∀ slot ∈ locals.slots, state.slots.Owned slot
  distinct : locals.slots.Nodup

/-- The statement is compiled, and its scratch slots are free again. -/
def PlacesStmt (fabrics : Fabrics) (ctx : CheckContext) (locals : Locals)
    (outer : List (Table String Nat)) (state : LoweringState) (stmt : Stmt)
    (after : CheckContext) (code : List Instr) (next : LoweringState) : Prop :=
  ∃ locals' declared scratch,
    StmtPlaced fabrics (Turns fabrics) ctx locals stmt code locals' declared scratch ∧
      state.slots.Advance declared scratch next.slots ∧ Places locals' outer next ∧
        after.scopes = locals'.types

/-- The block is compiled, and the slots of the blocks around it are as they were. -/
def PlacesBlock (fabrics : Fabrics) (ctx : CheckContext) (locals : Locals)
    (outer : List (Table String Nat)) (state : LoweringState) (body : List Stmt)
    (code : List Instr) (next : LoweringState) : Prop :=
  next.scopes.tail = outer ∧ next.missing = none ∧ ∃ declared scratch,
    BlockPlaced fabrics (Turns fabrics) ctx locals body code declared scratch ∧
      state.slots.Advance declared scratch next.slots

theorem flush_gives : Gives flush state fun released next =>
    released = releaseOf state.slots.pending ∧
      next = { state with slots := state.slots.flush.2 } := by
  obtain ⟨⟨count, free, pending⟩, scopes, missing⟩ := state
  cases pending with
  | nil => exact ⟨rfl, rfl⟩
  | cons slot rest => exact ⟨rfl, rfl⟩

theorem flush_settled {post : List Instr → LoweringState → Prop} (h : state.slots.Settled)
    (hpost : post [] state) : Gives flush state post := by
  refine flush_gives.imp ?_
  rintro _ _ ⟨rfl, rfl⟩
  rw [Slots.flush_snd, h.pending]
  obtain ⟨⟨count, free, pending⟩, scopes, missing⟩ := state
  cases h.pending
  exact hpost

namespace Places

/-- Variables keep their slots while others get theirs. -/
theorem advance (h : Places locals outer state) {declared scratch : List Nat}
    (hadvance : state.slots.Advance declared scratch next.slots)
    (hscopes : next.scopes = state.scopes) (hfound : next.missing = none) :
    Places locals outer next where
  bound name := by rw [hscopes, h.bound name]
  nested := hscopes ▸ h.nested
  found := hfound
  settled := hadvance.settled
  owned slot hmem := (h.owned slot hmem).advance hadvance
  distinct := h.distinct

/-- A scope of the compilation that the checker does without. -/
theorem nest (h : Places locals outer state) :
    Places locals state.scopes { state with scopes := ∅ :: state.scopes } where
  bound name := h.bound name
  nested := ⟨_, rfl⟩
  found := h.found
  settled := h.settled
  owned := h.owned
  distinct := h.distinct

theorem enter_iff : Places (∅ :: locals) outer state ↔ Places locals outer state :=
  ⟨fun ⟨bound, nested, found, settled, owned, distinct⟩ =>
      ⟨bound, nested, found, settled, owned, distinct⟩,
    fun ⟨bound, nested, found, settled, owned, distinct⟩ =>
      ⟨bound, nested, found, settled, owned, distinct⟩⟩

/-- A new variable gets a slot of its own. -/
theorem declare (h : Places locals outer state) (name : String) (ty : Ty)
    (hperm : ∀ slot, (locals.declare name ⟨slot, ty⟩).slots.Perm (slot :: locals.slots)) :
    Gives mint state fun slot next => Gives (bind name slot) next fun _ next =>
      slot = state.slots.next ∧ state.slots.Advance [slot] [] next.slots ∧
        next.slots.next = state.slots.next + 1 ∧
          Places (locals.declare name ⟨slot, ty⟩) outer next := by
  obtain ⟨slots, scopes, missing⟩ := state
  obtain ⟨inner, hscopes⟩ := h.nested
  cases hscopes
  have hadvance := Slots.Advance.mint h.settled
  refine ⟨rfl, hadvance, rfl, fun other => ?_, ⟨_, rfl⟩, h.found, hadvance.settled, ?_, ?_⟩
  · refine Serves.findSlot_insert.trans ?_
    rw [Locals.find?_declare]
    split
    · rfl
    · exact h.bound other
  · intro slot hmem
    rcases List.mem_cons.mp ((hperm _).mem_iff.mp hmem) with rfl | hmem
    · exact hadvance.owned _ (List.mem_singleton_self _)
    · exact (h.owned slot hmem).advance hadvance
  · refine (hperm _).nodup_iff.mpr (List.nodup_cons.mpr ⟨fun hmem => ?_, h.distinct⟩)
    exact Nat.lt_irrefl _ (h.owned _ hmem).1

/-- A block of its own leaves no slots of its variables behind. -/
theorem inBlock {run : Lower α} (post : α → Slots → Prop)
    (hrun : Gives run { state with scopes := ∅ :: state.scopes } fun answer last =>
      last.scopes.tail = state.scopes ∧ last.missing = none ∧ post answer last.slots) :
    Gives (inBlock run) state fun answer next =>
      next.scopes = state.scopes ∧ next.missing = none ∧ post answer next.slots := by
  unfold Lower.inBlock
  rw [gives_bind, gives_modify]
  exact Gives.bind hrun fun _ _ hlast => hlast

theorem left (h : Places locals outer state) :
    state.scopes.tail = outer ∧ state.missing = none := by
  obtain ⟨inner, hscopes⟩ := h.nested
  exact ⟨congrArg List.tail hscopes, h.found⟩

/-- Around a block the variables are as they were. -/
theorem block {inner : CheckContext} {locals' : Locals} {body : List Stmt}
    {run : Lower (List Instr)} (h : Places locals outer state)
    (hrun : Gives run { state with scopes := ∅ :: state.scopes }
      (PlacesBlock fabrics inner locals' state.scopes state body)) :
    Gives (Lower.inBlock run) state fun code next => ∃ declared scratch,
      BlockPlaced fabrics (Turns fabrics) inner locals' body code declared scratch ∧
        state.slots.Advance declared scratch next.slots ∧ Places locals outer next := by
  refine (inBlock (fun code slots => ∃ declared scratch,
    BlockPlaced fabrics (Turns fabrics) inner locals' body code declared scratch ∧
      state.slots.Advance declared scratch slots) hrun).imp ?_
  rintro code next ⟨hscopes, hmissing, declared, scratch, hblock, hadvance⟩
  exact ⟨declared, scratch, hblock, hadvance, h.advance hadvance hscopes hmissing⟩

/-- A statement that declares a variable. -/
theorem «let» (h : Places locals outer state) (htypes : ctx.scopes = locals.types) {name : String}
    {ty : Ty} (hdeclare : ctx.declare name ty = .ok after) {value : Lower Code} {code : Code}
    (hreads : Reads locals value code)
    (hplaced : ∀ slot, StmtPlaced fabrics (Turns fabrics) ctx locals stmt [.store slot code]
      (locals.declare name ⟨slot, ty⟩) [slot] []) :
    Gives (do
        let value ← value
        let slot ← mint
        Lower.bind name slot
        return [Instr.store slot value]) state fun instrs mid =>
      Gives flush mid fun released next =>
        PlacesStmt fabrics ctx locals outer state stmt after (instrs ++ released) next := by
  refine hreads.then h.bound ?_
  refine Gives.bind (h.declare name ty fun slot => (Locals.declare_spec hdeclare htypes slot).2) ?_
  intro slot mid hmid
  refine Gives.bind hmid ?_
  rintro _ next ⟨-, hadvance, -, hplaces⟩
  rw [gives_pure]
  refine flush_settled hplaces.settled ?_
  exact ⟨_, _, _, hplaced slot, hadvance, hplaces, (Locals.declare_spec hdeclare htypes slot).1⟩

/-- A statement that draws no scratch slots. -/
theorem flat (h : Places locals outer state) (htypes : ctx.scopes = locals.types) {instr : Instr}
    (hreads : Reads locals (lowerStmt fabrics stmt) [instr])
    (hturns : Turns fabrics locals stmt instr []) :
    Gives (lowerStmt fabrics stmt) state fun instrs mid => Gives flush mid fun released next =>
      PlacesStmt fabrics ctx locals outer state stmt ctx (instrs ++ released) next := by
  refine hreads.gives h.bound (flush_settled h.settled ?_)
  exact ⟨locals, [], [], .flat hturns, .refl h.settled, h, htypes⟩

end Places

theorem lowerAssign_reads (hfabrics : ctx.Provides fabrics) (htypes : ctx.scopes = locals.types)
    {target value : Expr} {ty : Ty} {verb : String} (htarget : ctx.ExprTyped target ty)
    (hassignable : Assignable target) (hwrite : ctx.checkWrite target verb = .ok ())
    (hvalue : ctx.Fits ty value) :
    ∃ instr, Reads locals (lowerAssign fabrics target value) instr ∧
      ∀ span, Becomes fabrics locals (.assign target value span) instr [] := by
  obtain ⟨code, hcode⟩ := lowerFits_refers hfabrics htypes hvalue
  cases htarget with
  | @var path ty hlocal =>
    rw [localOfPath?_types htypes, Option.map_eq_some_iff] at hlocal
    obtain ⟨found, hfound, rfl⟩ := hlocal
    refine ⟨.store found.slot code, (Reads.localOfPath? path).bind ?_,
      fun span => .setVariable hfound rfl hcode⟩
    rw [hfound]
    exact hcode.reads.bind (Reads.pure _)
  | fabric hlocal => exact absurd hwrite (checkWrite_fabric hlocal)
  | field hobject =>
    obtain ⟨object, hobject⟩ := lowerExpr_refers hfabrics htypes hobject
    exact ⟨.setField object _ code, hobject.reads.bind (hcode.reads.bind (Reads.pure _)),
      fun span => .setField rfl rfl hobject hcode⟩
  | indexArray hobject hindex | indexMap hobject hindex | indexText hobject hindex =>
    obtain ⟨kind, hkind, -⟩ := Reads.indexKind locals hobject.ty?
    obtain ⟨object, hobject⟩ := lowerExpr_refers hfabrics htypes hobject
    obtain ⟨index, hindex⟩ := lowerExpr_refers hfabrics htypes hindex
    exact ⟨.setIndex object kind index code,
      hkind.bind (hobject.reads.bind (hindex.reads.bind (hcode.reads.bind (Reads.pure _)))),
      fun span => .setElement rfl hkind hobject hindex hcode⟩
  | indexTuple hobject =>
    rcases hassignable with ⟨element, h⟩ | ⟨key, value, h⟩ <;> cases hobject.ty?.symm.trans h
  | _ => exact hassignable.elim

theorem lowerChange_reads (hfabrics : ctx.Provides fabrics) (htypes : ctx.scopes = locals.types)
    {op : CompoundOp} {target value : Expr} {ty : Ty} (htarget : ctx.ExprTyped target ty)
    (hvalue : ctx.OperandTyped op ty value true) :
    ∃ instr, Reads locals (lowerCompound fabrics op target value) instr ∧
      ∀ span, Turns fabrics locals (.compound op target value span) instr [] := by
  have hty : Reads locals (typeOf target) ty := Reads.typeOf htarget.ty?
  obtain ⟨targetCode, hplace⟩ := lowerExpr_refers hfabrics htypes htarget
  obtain ⟨code, hoperand⟩ := lowerOperand_refers hfabrics htypes hvalue
  have hparts {change : Code → Code → Instr} : Reads locals (do
      let target ← lowerExpr fabrics target
      return change target (← lowerExpr fabrics value)) (change targetCode code) :=
    hplace.reads.bind (hoperand.reads.bind (Reads.pure _))
  cases hvalue with
  | addToArray | addToSet =>
    exact ⟨.append targetCode code, hty.bind hparts,
      fun span => ⟨.append htarget.ty? rfl hplace hoperand, fun _ _ _ => ⟨_, _, .inl rfl⟩⟩⟩
  | removeFromMap | removeFromSet =>
    exact ⟨.remove targetCode code, hty.bind hparts,
      fun span => ⟨.remove htarget.ty? rfl hplace hoperand, fun _ _ _ => ⟨_, _, .inr rfl⟩⟩⟩

/-- Within a statement the compilation has only drawn scratch slots. -/
structure Drawing (before : LoweringState) (drawn : List Nat) (mid : LoweringState) : Prop where
  scopes : mid.scopes = before.scopes
  missing : mid.missing = before.missing
  draws : before.slots.Draws drawn mid.slots

namespace Drawing

variable {mid : LoweringState} {drawn : List Nat} {slot : Nat}

theorem bound (h : Drawing state drawn mid) (hbound : locals.Bound state) : locals.Bound mid :=
  fun name => by rw [h.scopes, hbound name]

theorem alloc (h : Drawing state drawn mid) : Gives (onSlots Slots.alloc) mid fun slot next =>
    Drawing state (drawn ++ [slot]) next ∧ next.slots.pending = mid.slots.pending := by
  refine ⟨⟨h.scopes, h.missing, h.draws.alloc⟩, ?_⟩
  change mid.slots.alloc.2.pending = mid.slots.pending
  unfold Slots.alloc
  split <;> rfl

theorem scratch (h : Drawing state drawn mid) : Gives scratch mid fun slot next =>
    Drawing state (drawn ++ [slot]) next ∧ next.slots.pending = mid.slots.pending ++ [slot] := by
  obtain ⟨hdrawing, hpending⟩ := h.alloc
  exact ⟨⟨hdrawing.scopes, hdrawing.missing, hdrawing.draws.deferRelease⟩,
    congrArg (· ++ [_]) hpending⟩

theorem defer (h : Drawing state drawn mid) (first second : Nat) :
    Gives (onSlots fun slots => ((), (slots.deferRelease first).deferRelease second)) mid
      fun _ next => Drawing state drawn next ∧
        next.slots.pending = mid.slots.pending ++ [first, second] :=
  ⟨⟨h.scopes, h.missing, h.draws.deferRelease.deferRelease⟩, List.append_assoc ..⟩

/-- A scratch slot is no slot of a variable in scope. -/
theorem not_mem (h : Drawing state drawn mid) (hplaces : Places locals outer state)
    (hmem : slot ∈ drawn) : slot ∉ locals.slots :=
  fun hslot => h.draws.not_owned hmem (hplaces.owned slot hslot)

end Drawing

/-- The compilation of an update has drawn the scratch slots that the update uses. -/
def PlacesUpdate (fabrics : Fabrics) (locals : Locals) (state : LoweringState) (op : CompoundOp)
    (target value : Expr) (instr : Instr) (next : LoweringState) : Prop :=
  Drawing state next.slots.pending next ∧
    ∀ span, Becomes fabrics locals (.compound op target value span) instr next.slots.pending

theorem PlacesUpdate.of_drawn {op : CompoundOp} {target value : Expr} {instr : Instr}
    {drawn : List Nat} (h : Drawing state drawn next) (hdrawn : next.slots.pending = drawn)
    (hbecomes : ∀ span, Becomes fabrics locals (.compound op target value span) instr drawn) :
    PlacesUpdate fabrics locals state op target value instr next := by
  subst hdrawn
  exact ⟨h, hbecomes⟩

theorem lowerUpdate_draws (hfabrics : ctx.Provides fabrics) (htypes : ctx.scopes = locals.types)
    {op : CompoundOp} {target value : Expr} {ty : Ty} {verb : String} {inPlace : Bool}
    (h : Places locals outer state) (htarget : ctx.ExprTyped target ty)
    (hassignable : Assignable target) (hwrite : ctx.checkWrite target verb = .ok ())
    (hvalue : ctx.OperandTyped op ty value inPlace) :
    Gives (lowerUpdate fabrics op ty target value) state
      (PlacesUpdate fabrics locals state op target value) := by
  have hpending := h.settled.pending
  have hnone : Drawing state [] state := ⟨rfl, rfl, .none h.settled⟩
  obtain ⟨code, hcode⟩ := lowerOperand_refers hfabrics htypes hvalue
  cases htarget with
  | @var path ty hlocal =>
    rw [localOfPath?_types htypes, Option.map_eq_some_iff] at hlocal
    obtain ⟨found, hfound, rfl⟩ := hlocal
    refine (Reads.localOfPath? path).then h.bound ?_
    rw [hfound]
    refine hcode.reads.then h.bound (.of_drawn hnone hpending fun span => ?_)
    exact .updateVariable hfound rfl hcode
  | fabric hlocal => exact absurd hwrite (checkWrite_fabric hlocal)
  | field hobject =>
    obtain ⟨object, hobject⟩ := lowerExpr_refers hfabrics htypes hobject
    refine Gives.bind hnone.scratch ?_
    rintro slot mid ⟨hdrawing, hdrawn⟩
    rw [hpending, List.nil_append] at hdrawn
    have hbound := hdrawing.bound h.bound
    refine hobject.reads.then hbound <| hcode.reads.then hbound <|
      .of_drawn hdrawing hdrawn fun span => ?_
    exact .updateField rfl rfl rfl hobject hcode (hdrawing.not_mem h (by simp))
  | indexArray hobject hindex | indexMap hobject hindex =>
    obtain ⟨kind, hkind, htext⟩ := Reads.indexKind locals hobject.ty?
    obtain ⟨object, hobject⟩ := lowerExpr_refers hfabrics htypes hobject
    obtain ⟨index, hindex⟩ := lowerExpr_refers hfabrics htypes hindex
    refine hkind.then h.bound ?_
    rw [if_neg (fun h => nomatch htext h)]
    refine Gives.bind hnone.alloc ?_
    rintro container mid ⟨hfirst, hpending'⟩
    refine Gives.bind hfirst.alloc ?_
    rintro key mid' ⟨hsecond, hpending''⟩
    rw [hpending', hpending] at hpending''
    refine Gives.bind (hsecond.defer container key) ?_
    rintro _ last ⟨hlast, hdrawn⟩
    rw [hpending'', List.nil_append] at hdrawn
    have hbound := hlast.bound h.bound
    refine hobject.reads.then hbound <| hindex.reads.then hbound <|
      hcode.reads.then hbound <| .of_drawn hlast hdrawn fun span => ?_
    have hne : container ≠ key := by simpa using (List.nodup_append'.mp hlast.draws.nodup).1
    exact .updateElement rfl hkind rfl hobject hindex hcode (hlast.not_mem h (by simp))
      (hlast.not_mem h (by simp)) hne
  | indexText hobject | indexTuple hobject =>
    rcases hassignable with ⟨element, h⟩ | ⟨key, value, h⟩ <;> cases hobject.ty?.symm.trans h
  | _ => exact hassignable.elim

theorem lowerCompound_placed (hfabrics : ctx.Provides fabrics) (htypes : ctx.scopes = locals.types)
    {op : CompoundOp} {target value : Expr} {ty : Ty} {verb : String} {span : Span}
    (h : Places locals outer state) (htarget : ctx.ExprTyped target ty)
    (hassignable : Assignable target) (hwrite : ctx.checkWrite target verb = .ok ())
    (hvalue : ctx.OperandTyped op ty value false) :
    Gives (lowerCompound fabrics op target value) state fun instr mid =>
      Gives flush mid fun released next =>
        PlacesStmt fabrics ctx locals outer state (.compound op target value span) ctx
          (instr :: released) next := by
  have hupdate : Gives (lowerUpdate fabrics op ty target value) state fun instr mid =>
      Gives flush mid fun released next =>
        PlacesStmt fabrics ctx locals outer state (.compound op target value span) ctx
          (instr :: released) next := by
    refine (lowerUpdate_draws hfabrics htypes h htarget hassignable hwrite hvalue).imp ?_
    rintro instr mid ⟨hdrawing, hbecomes⟩
    refine flush_gives.imp ?_
    rintro _ _ ⟨rfl, rfl⟩
    have hadvance := hdrawing.draws.flush rfl
    have hturns : Turns fabrics locals (.compound op target value span) instr mid.slots.pending :=
      ⟨hbecomes span, fun hstmt hty hcontainer => by
        cases hstmt
        cases htarget.ty?.symm.trans hty
        cases hvalue <;> cases hcontainer⟩
    exact ⟨locals, [], _, .flat hturns, hadvance,
      h.advance hadvance hdrawing.scopes (hdrawing.missing.trans h.found), htypes⟩
  refine (Reads.typeOf htarget.ty?).then h.bound ?_
  cases hvalue with
  | number => cases op <;> exact hupdate
  | text | suggestion => exact hupdate

/-- The slots of the loop's own variables are those that were taken for it since `before`. -/
theorem Places.loop {inner : CheckContext} {scope : Table String Local} {body : List Stmt}
    {source : Code} {kind : IterKind} {first : Nat} {second : Option Nat} {before : LoweringState}
    {own : List Nat} (h : Places (scope :: locals) outer state)
    (hown : before.slots.Advance own [] state.slots)
    (hbody : ∀ next, Places (scope :: locals) state.scopes next →
      Gives (lowerStmts fabrics body) next
        (PlacesBlock fabrics inner (scope :: locals) state.scopes next body))
    (hplaced : ∀ {code declared scratch},
      BlockPlaced fabrics (Turns fabrics) inner (scope :: locals) body code declared scratch →
      StmtPlaced fabrics (Turns fabrics) ctx locals stmt [.forEach source kind first second code]
        locals (own ++ declared) scratch) :
    Gives (do
        let body ← Lower.inBlock (lowerStmts fabrics body)
        return [Instr.forEach source kind first second body]) state fun instrs next =>
      next.scopes.tail = outer ∧ next.missing = none ∧ ∃ declared scratch,
        StmtPlaced fabrics (Turns fabrics) ctx locals stmt instrs locals declared scratch ∧
          before.slots.Advance declared scratch next.slots := by
  refine Gives.bind (h.block (hbody _ h.nest)) ?_
  rintro code next ⟨declared, scratch, hblock, hadvance, hplaces⟩
  exact ⟨hplaces.left.1, hplaces.left.2, _, scratch, hplaced hblock, hown.trans hadvance⟩

/-- A loop has two variables if two were asked for. -/
theorem loopPlan_second {ty : Ty} {two : Bool} {plan : LoopPlan}
    (h : ctx.loopPlan ty two = .ok plan) : plan.second.isSome = two := by
  unfold loopPlan at h
  split at h <;> cases h <;> rfl

theorem lowerFor_placed {plan : LoopPlan} {key : String} {value : Option String}
    {keyTy valueTy : Option TypeExpr} {iter : Expr} {source : Code} {ty : Ty} {body : List Stmt}
    {types : Table String Ty} {span : Span} (h : Places locals outer state)
    (htypes : ctx.scopes = locals.types) (hcode : iter.Compiles fabrics locals source)
    (hplan : ctx.loopPlan ty value.isSome = .ok plan)
    (hvariables : loopVariables plan key value = .ok types)
    (hbody : ∀ {inner outer state}, Places inner outer state → types :: ctx.scopes = inner.types →
      Gives (lowerStmts fabrics body) state
        (PlacesBlock fabrics { ctx.enter types with inLoop := true } inner outer state body)) :
    Gives (lowerStmt fabrics (.for (some plan) key value keyTy valueTy iter body span)) state
      fun instrs mid => Gives flush mid fun released next =>
        PlacesStmt fabrics ctx locals outer state
          (.for (some plan) key value keyTy valueTy iter body span) ctx (instrs ++ released)
          next := by
  refine hcode.reads.then h.bound ?_
  refine (Places.inBlock (fun instrs slots => ∃ declared scratch,
    StmtPlaced fabrics (Turns fabrics) ctx locals
      (.for (some plan) key value keyTy valueTy iter body span) instrs locals declared scratch ∧
        state.slots.Advance declared scratch slots) ?_).imp ?_
  · have hempty := Places.enter_iff.mpr h.nest
    have hfirst := hempty.declare key plan.first fun _ => Locals.slots_insert nofun
    refine Gives.bind hfirst fun first mid hmid => Gives.bind hmid ?_
    rintro _ mid ⟨-, hown, -, hplaces⟩
    have hsecond := loopPlan_second hplan
    simp only [loopVariables] at hvariables
    cases value with
    | none =>
      cases hvariables
      exact hplaces.loop hown (fun _ h => hbody h (congrArg (_ :: ·) htypes))
        fun hblock => .forOne hcode rfl hblock
    | some name =>
      obtain ⟨ty, hty⟩ := Option.isSome_iff_exists.mp hsecond
      simp only [hty] at hvariables ⊢
      split at hvariables
      case isTrue => cases hvariables
      case isFalse hne =>
        cases hvariables
        have hfresh : name ∉ ((∅ : Table String Local).insert key ⟨first, plan.first⟩).keys :=
          fun hmem => hne (List.mem_singleton.mp hmem)
        have hsecond := hplaces.declare name ty fun _ => Locals.slots_insert hfresh
        refine Gives.bind hsecond fun second mid hmid => Gives.bind hmid ?_
        rintro _ mid ⟨-, hown', -, hplaces⟩
        have htable : (((∅ : Table String Local).insert key ⟨first, plan.first⟩).insert name
            ⟨second, ty⟩).mapValues Local.ty =
              ((∅ : Table String Ty).insert key plan.first).insert name ty :=
          Table.mapValues_insert
        rw [← htable] at hbody
        exact hplaces.loop (hown.trans hown') (fun _ h => hbody h (congrArg (_ :: ·) htypes))
          fun hblock => .forTwo hcode hty rfl hblock
  · rintro instrs mid ⟨hscopes, hmissing, declared, scratch, hplaced, hadvance⟩
    have h := h.advance hadvance hscopes hmissing
    exact flush_settled h.settled
      ⟨_, _, _, (List.append_nil instrs).symm ▸ hplaced, hadvance, h, htypes⟩

mutual

theorem lowerStmt_placed : ∀ {ctx after : CheckContext} {stmt : Stmt}, StmtTyped ctx stmt after →
    ctx.Provides fabrics → ∀ {locals outer state}, Places locals outer state →
      ctx.scopes = locals.types →
      Gives (lowerStmt fabrics stmt) state fun instrs mid => Gives flush mid fun released next =>
        PlacesStmt fabrics ctx locals outer state stmt after (instrs ++ released) next
  | _, _, _, .letInferred hinit _ _ hdeclare, hfabrics, _, _, _, h, htypes =>
    have ⟨_, hcode⟩ := lowerExpr_refers hfabrics htypes hinit
    h.let htypes hdeclare hcode.reads fun _ => .letValue hcode
  | _, _, _, .letDeclared _ hinit _ hdeclare, hfabrics, _, _, _, h, htypes =>
    have ⟨_, hcode⟩ := lowerFits_refers hfabrics htypes hinit
    h.let htypes hdeclare hcode.reads fun _ => .letValue hcode
  | _, _, _, .letDefault _ _ hdeclare, _, _, _, _, h, htypes =>
    h.let htypes hdeclare (Reads.pure _) fun _ => .letDefault
  | _, _, _, .assign htarget hassignable hvalue hwrite, hfabrics, _, _, _, h, htypes =>
    have ⟨_, hreads, hbecomes⟩ :=
      lowerAssign_reads hfabrics htypes htarget hassignable hwrite hvalue
    h.flat htypes (hreads.bind (Reads.pure _)) ⟨hbecomes _, nofun⟩
  | _, _, _, .change htarget hvalue _, hfabrics, _, _, _, h, htypes =>
    have ⟨_, hreads, hturns⟩ := lowerChange_reads hfabrics htypes htarget hvalue
    h.flat htypes (hreads.bind (Reads.pure _)) (hturns _)
  | _, _, _, .update htarget hassignable hvalue hwrite, hfabrics, _, _, _, h, htypes =>
    Gives.bind (lowerCompound_placed hfabrics htypes h htarget hassignable hwrite hvalue)
      fun _ _ hplaced => hplaced
  | _, _, _, .expr hexpr, hfabrics, _, _, _, h, htypes =>
    have ⟨_, hcode⟩ := lowerExpr_refers hfabrics htypes hexpr
    h.flat htypes (hcode.reads.bind (Reads.pure _)) ⟨.expr hcode, nofun⟩
  | _, _, _, .branch hcond hyes hno, hfabrics, _, _, _, h, htypes => by
    have htypes' := congrArg (∅ :: ·) htypes
    obtain ⟨cond, hcode⟩ := lowerFits_refers hfabrics htypes hcond
    refine hcode.reads.then h.bound ?_
    have hinside := Places.enter_iff.mpr h.nest
    refine Gives.bind (h.block (lowerStmts_placed hyes hfabrics hinside htypes')) ?_
    rintro yes mid ⟨_, _, hyes, hadvance, h⟩
    have hinside := Places.enter_iff.mpr h.nest
    refine Gives.bind (h.block (lowerStmts_placed hno hfabrics hinside htypes')) ?_
    rintro no next ⟨_, _, hno, hadvance', h⟩
    rw [gives_pure]
    exact flush_settled h.settled
      ⟨_, _, _, .branch hcode hyes hno, hadvance.trans hadvance', h, htypes⟩
  | _, _, _, .while hcond hbody, hfabrics, _, _, _, h, htypes => by
    obtain ⟨cond, hcode⟩ := lowerFits_refers hfabrics htypes hcond
    refine hcode.reads.then h.bound ?_
    refine Gives.bind (h.block (lowerStmts_placed hbody hfabrics (Places.enter_iff.mpr h.nest)
      (congrArg (∅ :: ·) htypes))) ?_
    rintro body next ⟨_, _, hbody, hadvance, h⟩
    rw [gives_pure]
    exact flush_settled h.settled ⟨_, _, _, .while hcode hbody, hadvance, h, htypes⟩
  | _, _, _, .for hiter _ hplan htypes' hbody, hfabrics, _, _, _, h, htypes =>
    have ⟨_, hcode⟩ := lowerExpr_refers hfabrics htypes hiter
    lowerFor_placed h htypes hcode hplan htypes' fun h => lowerStmts_placed hbody hfabrics h
  | _, _, _, .returnNothing _, _, _, _, _, h, htypes =>
    h.flat htypes (Reads.pure _) ⟨.returnNothing, nofun⟩
  | _, _, _, .returnValue hvalue, hfabrics, _, _, _, h, htypes =>
    have ⟨_, hcode⟩ := lowerFits_refers hfabrics htypes hvalue
    h.flat htypes (hcode.reads.bind (Reads.pure _)) ⟨.returnValue hcode, nofun⟩
  | _, _, _, .break _, _, _, _, _, h, htypes => h.flat htypes (Reads.pure _) ⟨.break, nofun⟩
  | _, _, _, .continue _, _, _, _, _, h, htypes => h.flat htypes (Reads.pure _) ⟨.continue, nofun⟩
  | _, _, _, .extend htarget _ _, hfabrics, _, _, _, h, htypes =>
    have ⟨_, hcode⟩ := lowerExpr_refers hfabrics htypes htarget
    h.flat htypes (hcode.reads.bind (Reads.pure _)) ⟨.extend hcode, nofun⟩
  | _, _, _, .retract htarget _ _, hfabrics, _, _, _, h, htypes =>
    have ⟨_, hcode⟩ := lowerExpr_refers hfabrics htypes htarget
    h.flat htypes (hcode.reads.bind (Reads.pure _)) ⟨.retract hcode, nofun⟩
  | _, _, _, .enforce hsuggestion _, hfabrics, _, _, _, h, htypes =>
    have ⟨_, hcode⟩ := lowerFits_refers hfabrics htypes hsuggestion
    h.flat htypes (hcode.reads.bind (Reads.pure _)) ⟨.enforce hcode, nofun⟩

theorem lowerStmts_placed : ∀ {ctx : CheckContext} {body : List Stmt}, BlockTyped ctx body →
    ctx.Provides fabrics → ∀ {locals outer state}, Places locals outer state →
      ctx.scopes = locals.types →
      Gives (lowerStmts fabrics body) state (PlacesBlock fabrics ctx locals outer state body)
  | _, _, .nil, _, _, _, _, h, _ => ⟨h.left.1, h.left.2, [], [], .nil, .refl h.settled⟩
  | _, _, .cons hstmt hrest, hfabrics, _, _, _, h, htypes => by
    obtain ⟨scopes, rfl⟩ := hstmt.scoped
    refine Gives.bind (lowerStmt_placed hstmt hfabrics h htypes) fun instrs mid hmid => ?_
    refine Gives.bind hmid ?_
    rintro released next ⟨locals', _, _, hplaced, hadvance, h', htypes'⟩
    refine Gives.bind (lowerStmts_placed hrest hfabrics h' htypes') ?_
    rintro code last ⟨htail, hmissing, _, _, hblock, hadvance'⟩
    exact ⟨htail, hmissing, _, _, .cons htypes h.distinct hstmt hplaced hblock,
      hadvance.trans hadvance'⟩

end

/-- The parameters of a method get the first slots. -/
theorem bindParams_placed (scope : Table String Local) {params : List Param} {types : List Ty}
    {last : Table String Ty}
    (hparams : (params.zip types).foldlM (fun table (param, ty) =>
      if table.contains param.name then .error (.duplicateLocal param.name)
      else .ok (table.insert param.name ty)) (scope.mapValues Local.ty) =
        (.ok last : Except CheckCause _))
    (hlength : params.length = types.length) (h : Places [scope] outer state) :
    Gives (bindParams params) state fun _ next => ∃ table, Places [table] outer next ∧
      table.mapValues Local.ty = last ∧
      state.slots.Advance (List.range' state.slots.next params.length) [] next.slots ∧
      (∀ name found, scope.get? name = some found → table.get? name = some found) ∧
      (∀ found ∈ table.values, found ∈ scope.values ∨ ∃ position,
        types[position]? = some found.ty ∧ found.slot = state.slots.next + position) ∧
      ∀ position param, params[position]? = some param → ∃ ty, types[position]? = some ty ∧
        table.get? param.name = some ⟨state.slots.next + position, ty⟩ := by
  induction params generalizing types scope state with
  | nil =>
    cases hparams
    exact ⟨scope, h, rfl, .refl h.settled, fun _ _ h => h, fun _ h => .inl h, nofun⟩
  | cons param rest ih =>
    cases types with
    | nil => cases hlength
    | cons ty types =>
      rw [List.zip_cons_cons, List.foldlM_cons, bind_eq_ok] at hparams
      obtain ⟨table, htable, hparams⟩ := hparams
      dsimp only at htable
      split at htable
      case isTrue => cases htable
      case isFalse hfresh =>
        cases htable
        rw [Table.contains_iff, Locals.keys_mapValues] at hfresh
        have hdeclare := h.declare param.name ty fun _ => Locals.slots_insert hfresh
        refine Gives.bind hdeclare fun slot mid hmid => Gives.bind hmid ?_
        rintro _ mid ⟨rfl, hadvance, hnext, hplaces⟩
        have htypes : (scope.insert param.name ⟨state.slots.next, ty⟩).mapValues Local.ty =
            (scope.mapValues Local.ty).insert param.name ty := Table.mapValues_insert
        rw [← htypes] at hparams
        refine (ih _ hparams (Nat.succ.inj hlength) hplaces).imp ?_
        rintro _ next ⟨table, hplaces, htypes, hadvance', hkept, hvalues, hget⟩
        rw [hnext] at hadvance' hvalues hget
        refine ⟨table, hplaces, htypes, hadvance.trans hadvance', fun name found hname => ?_,
          fun found hmem => ?_, ?_⟩
        · refine hkept name found ?_
          rw [Table.get?_insert_of_ne _ _ fun heq => hfresh ?_]
          · exact hname
          · exact heq ▸ Table.contains_iff.mp (Table.contains_of_get? hname)
        · rcases hvalues found hmem with hmem | ⟨position, hty, hslot⟩
          · obtain ⟨entry, hentry, rfl⟩ := List.mem_map.mp hmem
            rcases Table.mem_insert hentry with rfl | hentry
            · exact .inr ⟨0, rfl, rfl⟩
            · exact .inl (List.mem_map_of_mem hentry)
          · exact .inr ⟨position + 1, hty, by omega⟩
        · intro position found hposition
          cases position with
          | zero =>
            cases hposition
            exact ⟨ty, rfl, hkept _ _ (Table.get?_insert_self ..)⟩
          | succ position =>
            obtain ⟨ty', hty, hfound⟩ := hget position found hposition
            exact ⟨ty', hty, by rw [hfound, Nat.add_right_comm]; rfl⟩

/-- Where the code of a method keeps its parameters, the variables that it declares, and the parts of
locations that it updates, in a frame of `count` slots. -/
structure MethodPlaced (fabrics : Fabrics) (flat : Locals → Stmt → Instr → List Nat → Prop)
    (ctx : CheckContext) (cls : ClassId) (sig : MethodSig) (decl : MethodDecl) (code : List Instr)
    (count : Nat) (params : Table String Local) (declared scratch : List Nat) : Prop where
  checked : parameters decl sig = .ok (params.mapValues Local.ty)
  /-- A parameter has the slot of its position, in which its argument comes. -/
  param {position : Nat} {param : Param} : decl.params[position]? = some param →
    ∃ ty, sig.params[position]? = some ty ∧ params.get? param.name = some ⟨position, ty⟩
  block : BlockPlaced fabrics flat (ctx.within cls sig (params.mapValues Local.ty)) [params]
    decl.body code declared scratch
  distinct : (List.range decl.params.length ++ declared).Nodup
  apart : ∀ slot ∈ scratch, slot ∉ List.range decl.params.length ++ declared
  below : ∀ slot ∈ List.range decl.params.length ++ declared ++ scratch, slot < count
  bounded : ∀ mention ∈ Instr.allMentions code, mention.slot < count

/-- What becomes of the statements without blocks may be told in more detail. -/
theorem MethodPlaced.imp {cls : ClassId} {sig : MethodSig} {decl : MethodDecl}
    {code : List Instr} {count : Nat} {params : Table String Local} {declared scratch : List Nat}
    {flat flat' : Locals → Stmt → Instr → List Nat → Prop}
    (h : MethodPlaced fabrics flat ctx cls sig decl code count params declared scratch)
    (himp : ∀ locals stmt instr own, own ⊆ scratch → flat locals stmt instr own →
      flat' locals stmt instr own) :
    MethodPlaced fabrics flat' ctx cls sig decl code count params declared scratch where
  checked := h.checked
  param := h.param
  block := h.block.imp himp
  distinct := h.distinct
  apart := h.apart
  below := h.below
  bounded := h.bounded

theorem finish_gives {name : String} {arity : Nat} {ret : Ty} {run : Lower (List Instr)}
    (post : List Instr → Slots → Prop)
    (h : Gives run {} fun body state => state.missing = none ∧ post body state.slots) :
    ∃ body slots, finish name arity ret run = .ok { name, arity, slots := slots.count, ret, body } ∧
      post body slots := by
  cases hrun : run.run {} with | mk body state =>
  unfold Gives at h
  simp only [finish, hrun] at h ⊢
  rw [h.1]
  exact ⟨body, state.slots, rfl, h.2⟩

theorem Places.start : Places [∅] [] { scopes := [∅] } where
  bound _ := rfl
  nested := ⟨_, rfl⟩
  found := rfl
  settled := ⟨rfl, List.nodup_nil, nofun⟩
  owned := nofun
  distinct := List.nodup_nil

/-- The body follows its parameters. -/
theorem MethodPlaced.of_block {cls : ClassId} {sig : MethodSig} {decl : MethodDecl}
    {code : List Instr} {slots : Slots} {params : Table String Local} {declared scratch : List Nat}
    (hchecked : parameters decl sig = .ok (params.mapValues Local.ty))
    (hparam : ∀ position param, decl.params[position]? = some param → ∃ ty,
      sig.params[position]? = some ty ∧ params.get? param.name = some ⟨0 + position, ty⟩)
    (hblock : BlockPlaced fabrics (Turns fabrics)
      (ctx.within cls sig (params.mapValues Local.ty)) [params] decl.body code declared scratch)
    (hadvance : Slots.Advance {} (List.range' 0 decl.params.length ++ declared) scratch slots)
    (howned : ∀ slot ∈ Locals.slots [params], slots.Owned slot) :
    MethodPlaced fabrics (Turns fabrics) ctx cls sig decl code slots.count params declared
      scratch := by
  rw [← List.range_eq_range'] at hadvance
  have hscratch : ∀ slot ∈ scratch, slot < slots.next := fun slot hmem =>
    hadvance.settled.minted slot (hadvance.scratch slot hmem)
  refine ⟨hchecked, fun hposition => ?_, hblock, hadvance.distinct, ?_, ?_, ?_⟩
  · simpa only [Nat.zero_add] using hparam _ _ hposition
  · exact fun slot hmem hmem' => (hadvance.owned slot hmem').2 (hadvance.scratch slot hmem)
  · intro slot hmem
    rcases List.mem_append.mp hmem with hmem | hmem
    · exact (hadvance.owned slot hmem).1
    · exact hscratch slot hmem
  · intro mention hmem
    rcases hblock.placed Turns.confined mention hmem with hmem | hmem | hmem
    · exact (howned _ hmem).1
    · exact (hadvance.owned _ (List.mem_append_right _ hmem)).1
    · exact hscratch _ hmem

theorem lowerBody_placed {cls : ClassId} {sig : MethodSig} (decl : MethodDecl)
    {types : Table String Ty} (hfabrics : ctx.Provides fabrics)
    (hlength : decl.params.length = sig.params.length)
    (hparams : parameters decl sig = .ok types)
    (hbody : BlockTyped (ctx.within cls sig types) decl.body) :
    Gives (inBlock do
        bindParams decl.params
        inBlock (lowerStmts fabrics decl.body)) {} fun code next =>
      next.missing = none ∧ ∃ params declared scratch,
        MethodPlaced fabrics (Turns fabrics) ctx cls sig decl code next.slots.count params declared
          scratch ∧ ∀ found ∈ params.values, sig.params[found.slot]? = some found.ty := by
  refine (Places.inBlock (fun code slots => ∃ params declared scratch,
    MethodPlaced fabrics (Turns fabrics) ctx cls sig decl code slots.count params declared scratch ∧
      ∀ found ∈ params.values, sig.params[found.slot]? = some found.ty)
      (Gives.bind (bindParams_placed ∅ hparams hlength .start) ?_)).imp fun _ _ hlast => hlast.2
  rintro _ mid ⟨params, hplaces, rfl, hadvance, -, hvalues, hparam⟩
  refine (hplaces.block (lowerStmts_placed hbody hfabrics hplaces.nest rfl)).imp ?_
  rintro code last ⟨declared, scratch, hblock, hadvance', hlast⟩
  refine ⟨hlast.left.1, hlast.left.2, params, declared, scratch,
    .of_block hparams hparam hblock (hadvance.trans hadvance') hlast.owned, fun found hmem => ?_⟩
  rcases hvalues found hmem with hmem | ⟨position, hty, hslot⟩
  · cases hmem
  · rwa [hslot, show _ + position = position from Nat.zero_add position]

/-- The code of a checked method, in which every variable of a parameter is in the slot of that. -/
theorem lowerMethod_turns {cls : ClassId} {sig : MethodSig} {decl answer : MethodDecl}
    (className : String) (hfabrics : ctx.Provides fabrics)
    (hlength : decl.params.length = sig.params.length)
    (h : ctx.checkMethod cls sig decl = .ok answer) :
    ∃ body count params declared scratch, lowerMethod fabrics className sig answer =
        .ok ⟨className ++ "." ++ answer.name, sig.params.length, count, sig.ret, body⟩ ∧
      MethodPlaced fabrics (Turns fabrics) ctx cls sig answer body count params declared
        scratch ∧ ∀ found ∈ params.values, sig.params[found.slot]? = some found.ty := by
  obtain ⟨types, body, hparams, rfl, hbody⟩ := checkMethod_sound h
  obtain ⟨code, slots, hroutine, params, declared, scratch, hplaced⟩ :=
    finish_gives (fun code slots => ∃ params declared scratch,
      MethodPlaced fabrics (Turns fabrics) ctx cls sig { decl with body } code slots.count params
        declared scratch ∧ ∀ found ∈ params.values, sig.params[found.slot]? = some found.ty) (lowerBody_placed { decl with body } hfabrics hlength hparams hbody)
  exact ⟨code, _, params, declared, scratch, hroutine, hplaced⟩

theorem lowerMethod_placed {cls : ClassId} {sig : MethodSig} {decl answer : MethodDecl}
    (className : String) (hfabrics : ctx.Provides fabrics)
    (hlength : decl.params.length = sig.params.length)
    (h : ctx.checkMethod cls sig decl = .ok answer) :
    ∃ routine params declared scratch, lowerMethod fabrics className sig answer = .ok routine ∧
      MethodPlaced fabrics (Becomes fabrics) ctx cls sig answer routine.body routine.slots params
        declared scratch := by
  obtain ⟨_, _, params, declared, scratch, hroutine, hplaced, -⟩ :=
    lowerMethod_turns className hfabrics hlength h
  exact ⟨_, params, declared, scratch, hroutine, hplaced.imp fun _ _ _ _ _ h => h.becomes⟩

/-- Where no variables are in scope, code mentions no slots. -/
theorem mentions_of_compiles_empty {expr : Expr} {code : Code}
    (h : expr.Compiles fabrics [∅] code) : code.mentions = [] := by
  refine List.eq_nil_iff_forall_not_mem.mpr fun mention hmem => ?_
  obtain ⟨slot, hslot, -⟩ := h.reads_known hmem
  cases hslot

theorem lowerInitializer_placed {cls : ClassId} {ty : Ty} {decl answer : FieldDecl}
    (className : String) (hfabrics : ctx.Provides fabrics)
    (h : ctx.checkInitializer cls ty decl = .ok answer) :
    ∃ code, lowerInitializer fabrics className answer ty = .ok
        ⟨className ++ "." ++ decl.name, 0, 0, ty, [.return code]⟩ ∧
      code.mentions = [] ∧ ∀ init ∈ answer.init, init.Compiles fabrics [∅] code := by
  obtain ⟨init, rfl, hinit⟩ := checkInitializer_sound h
  cases init with
  | none => exact ⟨.default ty true, rfl, rfl, nofun⟩
  | some init =>
    have hprovides : (ctx.initializing cls ty).Provides fabrics := hfabrics
    obtain ⟨code, hcode⟩ : ∃ code, init.Compiles fabrics [∅] code :=
      lowerFits_refers hprovides rfl (hinit init rfl)
    have hrun : Gives (inBlock do
          return [Instr.return (← lowerInit fabrics (some ty) (some init))]) {} fun body state =>
        state.missing = none ∧ body = [.return code] ∧ state.slots = {} := by
      refine (Places.inBlock (fun body slots => body = [.return code] ∧ slots = {}) ?_).imp
        fun _ _ hlast => hlast.2
      refine hcode.reads.then Places.start.bound ?_
      rw [gives_pure]
      exact ⟨rfl, rfl, rfl, rfl⟩
    obtain ⟨body, slots, hroutine, rfl, rfl⟩ :=
      finish_gives (fun body slots => body = [.return code] ∧ slots = {}) hrun
    refine ⟨code, hroutine, mentions_of_compiles_empty hcode, ?_⟩
    rintro _ ⟨⟩
    exact hcode

/-- Checked bodies use their frames soundly.  In the code of a method every variable reads as the slot
of the declaration that the checker resolved its name to, and was noted with the type of that; all
variables have slots of their own, parameters the first ones; and the scratch slots of a statement are
none of these, and differ from each other.  An initializer has no variables. -/
theorem checked_slots (hfabrics : ctx.Provides fabrics) (className : String) (cls : ClassId) :
    (∀ (sig : MethodSig) (decl answer : MethodDecl), decl.params.length = sig.params.length →
      ctx.checkMethod cls sig decl = .ok answer →
        ∃ routine params declared scratch, lowerMethod fabrics className sig answer = .ok routine ∧
          MethodPlaced fabrics (Becomes fabrics) ctx cls sig answer routine.body routine.slots params
            declared scratch) ∧
    ∀ (ty : Ty) (decl answer : FieldDecl), ctx.checkInitializer cls ty decl = .ok answer →
      ∃ code, lowerInitializer fabrics className answer ty = .ok
          ⟨className ++ "." ++ decl.name, 0, 0, ty, [.return code]⟩ ∧
        code.mentions = [] ∧ ∀ init ∈ answer.init, init.Compiles fabrics [∅] code :=
  ⟨fun _ _ _ hlength h => lowerMethod_placed className hfabrics hlength h,
    fun _ _ _ h => lowerInitializer_placed className hfabrics h⟩

/-! A variable of a loop's body that shadows a parameter, and two updates that share their scratch
slots. -/

def tallyContext : CheckContext where
  classes := {}
  names := ⟨{}, {}⟩
  rootClass := none
  clonableClass := none

def tallySig : MethodSig where
  owner := ⟨0⟩
  name := "tally"
  params := [.array .num, .num]
  ret := .num
  mutating := true
  mutatingThis := false

def tallyDecl : MethodDecl where
  name := "tally"
  params := [⟨"items", .array .num⟩, ⟨"total", .num⟩]
  ret := .num
  mutating := true
  body := [
    .for none "item" none none none (.mk none (.name ["items"])) [
      .let none "total" none (some (.mk none (.name ["item"]))) {},
      .compound .add (.mk none (.index (.mk none (.name ["items"])) (.mk none (.num 0))))
        (.mk none (.name ["total"])) {}] {},
    .compound .add (.mk none (.index (.mk none (.name ["items"])) (.mk none (.num 1))))
      (.mk none (.name ["total"])) {},
    .return (some (.mk none (.name ["total"]))) {}]

theorem tally_slots : ∃ answer routine params declared scratch,
    tallyContext.Provides (fun _ => some .null) ∧
    tallyDecl.params.length = tallySig.params.length ∧
    tallyContext.checkMethod ⟨0⟩ tallySig tallyDecl = .ok answer ∧
    lowerMethod (fun _ => some .null) "Ledger" tallySig answer = .ok routine ∧
    MethodPlaced (fun _ => some .null) (Becomes fun _ => some .null) tallyContext ⟨0⟩ tallySig answer
      routine.body routine.slots params declared scratch := by
  have hfabrics : tallyContext.Provides (fun _ => some .null) := fun _ _ _ => ⟨_, rfl⟩
  obtain ⟨answer, hcheck⟩ : ∃ answer, tallyContext.checkMethod ⟨0⟩ tallySig tallyDecl = .ok answer :=
    exists_eq_ok (by decide +kernel)
  obtain ⟨routine, params, declared, scratch, hroutine, hplaced⟩ :=
    (checked_slots hfabrics "Ledger" ⟨0⟩).1 tallySig tallyDecl answer rfl hcheck
  exact ⟨answer, routine, params, declared, scratch, hfabrics, rfl, hcheck, hroutine, hplaced⟩

end Lower

end Attire
