import Attire.Proofs.Lowering.Success

namespace Attire

/-! The slots that code mentions, and the variables that the names of an expression stand for. -/

inductive Mention
  | read (slot : Nat)
  | write (slot : Nat)
deriving DecidableEq, Repr

def Mention.slot : Mention → Nat
  | read slot | write slot => slot

mutual

/-- The slots that an expression mentions, in the order of evaluation. -/
def Code.mentions : Code → List Mention
  | .num _ | .text _ | .bool _ | .null | .default _ _ | .this | .caller | .const _ | .new _
  | .newArray | .newMap | .newSet | .random => []
  | .local slot => [.read slot]
  | .tee slot value => value.mentions ++ [.write slot]
  | .tupleGet value _ | .not value | .neg value | .cast value _ | .clone value | .len value
  | .is value _ | .getField value _ _ => value.mentions
  | .index left _ right _ | .arith _ left right | .concat left right | .compare _ left right
  | .equal _ left right | .logic _ left right | .merge left right | .has left right =>
    left.mentions ++ right.mentions
  | .call object _ args _ => object.mentions ++ Code.allMentions args
  | .superCall _ _ args => Code.allMentions args
  | .array elements | .tuple elements => Code.allMentions elements
  | .suggest steps => StepCode.allMentions steps

def Code.allMentions : List Code → List Mention
  | [] => []
  | code :: rest => code.mentions ++ Code.allMentions rest

def StepCode.mentions : StepCode → List Mention
  | .extend target _ | .retract target _ => target.mentions
  | .call target _ args => target.mentions ++ Code.allMentions args

def StepCode.allMentions : List StepCode → List Mention
  | [] => []
  | step :: rest => step.mentions ++ StepCode.allMentions rest

end

mutual

def Instr.mentions : Instr → List Mention
  | .eval code | .return code | .extend code _ | .retract code _ | .enforce code => code.mentions
  | .store slot value => value.mentions ++ [.write slot]
  | .setField object _ value => object.mentions ++ value.mentions
  | .setIndex target _ index value => target.mentions ++ index.mentions ++ value.mentions
  | .append target value | .remove target value => target.mentions ++ value.mentions
  | .branch cond yes no => cond.mentions ++ Instr.allMentions yes ++ Instr.allMentions no
  | .while cond body => cond.mentions ++ Instr.allMentions body
  | .forEach source _ first second body =>
    source.mentions ++ (first :: second.toList).map .write ++ Instr.allMentions body
  | .break | .continue => []
  | .release slots => slots.map .write

def Instr.allMentions : List Instr → List Mention
  | [] => []
  | instr :: rest => instr.mentions ++ Instr.allMentions rest

end

theorem Instr.allMentions_append {first second : List Instr} :
    Instr.allMentions (first ++ second) = Instr.allMentions first ++ Instr.allMentions second := by
  induction first with
  | nil => rfl
  | cons instr rest ih =>
    simp only [List.cons_append, Instr.allMentions, ih, List.append_assoc]

/-- What became of a declared variable. -/
structure Local where
  slot : Nat
  ty : Ty

/-- The variables of the blocks around a place, innermost first. -/
abbrev Locals := List (Table String Local)

namespace Locals

def find? (name : String) : Locals → Option Local
  | [] => none
  | scope :: outer =>
    match scope.get? name with
    | some found => some found
    | none => find? name outer

def ofPath? (locals : Locals) : Path → Option Local
  | [name] => find? name locals
  | _ => none

/-- The scopes of the checker. -/
def types (locals : Locals) : List (Table String Ty) :=
  locals.map (Table.mapValues Local.ty)

def slots (locals : Locals) : List Nat :=
  locals.flatMap fun scope => scope.values.map Local.slot

/-- The names in scope stand for these variables, and for no others. -/
def Bound (locals : Locals) (state : LoweringState) : Prop :=
  ∀ name, Lower.findSlot name state.scopes = (locals.find? name).map Local.slot

theorem findLocal_types {locals : Locals} {name : String} :
    CheckContext.findLocal name locals.types = (locals.find? name).map Local.ty := by
  induction locals with
  | nil => rfl
  | cons scope outer ih =>
    simp only [types, List.map_cons, CheckContext.findLocal, find?, Table.get?_mapValues]
    cases scope.get? name with
    | none => exact ih
    | some found => rfl

theorem slot_mem_of_find? {locals : Locals} {name : String} {found : Local}
    (h : locals.find? name = some found) : found.slot ∈ locals.slots := by
  induction locals with
  | nil => cases h
  | cons scope outer ih =>
    rw [slots, List.flatMap_cons]
    simp only [find?] at h
    split at h
    case h_1 hget =>
      cases h
      exact List.mem_append_left _ (List.mem_map_of_mem (Table.mem_values_of_get? hget))
    case h_2 => exact List.mem_append_right _ (ih h)

theorem slot_mem_of_ofPath? {locals : Locals} {path : Path} {found : Local}
    (h : locals.ofPath? path = some found) : found.slot ∈ locals.slots := by
  unfold ofPath? at h
  split at h
  case h_1 => exact slot_mem_of_find? h
  case h_2 => cases h

end Locals

/-- A name that stands for a variable. -/
structure Reference where
  /-- The type that was noted at the name. -/
  noted : Option Ty
  target : Local

def Reference.mention (reference : Reference) : Mention := .read reference.target.slot

mutual

/-- The references to variables in an expression, in the order of evaluation.  The position in a
tuple is in the note; the written one is not evaluated. -/
def Expr.references (locals : Locals) : Expr → List Reference
  | .mk note form => form.references locals note

def Form.references (locals : Locals) (note : Option Note) : Form → List Reference
  | .num _ | .text _ | .bool _ | .null | .this | .caller | .random | .new _ => []
  | .name path => ((locals.ofPath? path).map (Reference.mk (note.map Note.ty))).toList
  | .field value _ | .unary _ value | .cast value _ | .clone value | .len value | .is value _ =>
    value.references locals
  | .index object index =>
    match note.bind Note.meaning with
    | some (.tupleIndex _) => object.references locals
    | _ => object.references locals ++ index.references locals
  | .call object _ args => object.references locals ++ Expr.allReferences locals args
  | .superCall _ args => Expr.allReferences locals args
  | .binary _ left right | .has left right =>
    left.references locals ++ right.references locals
  | .array elements | .tuple elements => Expr.allReferences locals elements
  | .suggest steps => SuggestStep.allReferences locals steps

def Expr.allReferences (locals : Locals) : List Expr → List Reference
  | [] => []
  | expr :: rest => expr.references locals ++ Expr.allReferences locals rest

def SuggestStep.references (locals : Locals) : SuggestStep → List Reference
  | .extend _ target _ | .retract _ target _ => target.references locals
  | .call _ target _ args => target.references locals ++ Expr.allReferences locals args

def SuggestStep.allReferences (locals : Locals) : List SuggestStep → List Reference
  | [] => []
  | step :: rest => step.references locals ++ SuggestStep.allReferences locals rest

end

namespace Lower

variable {α β : Type} {locals : Locals}

/-- Wherever the variables are in scope, the compilation yields the answer and changes nothing. -/
def Reads (locals : Locals) (run : Lower α) (answer : α) : Prop :=
  ∀ state, locals.Bound state → run.run state = (answer, state)

theorem Reads.pure (answer : α) : Reads locals (pure answer) answer := fun _ _ => rfl

theorem Reads.bind {run : Lower α} {next : α → Lower β} {answer : α} {last : β}
    (h : Reads locals run answer) (hnext : Reads locals (next answer) last) :
    Reads locals (run >>= next) last := by
  intro state hbound
  rw [StateT.run_bind, h state hbound]
  exact hnext state hbound

theorem Reads.gives {run : Lower α} {answer : α} {state : LoweringState}
    {post : α → LoweringState → Prop} (h : Reads locals run answer)
    (hbound : locals.Bound state) (hpost : post answer state) : Gives run state post := by
  rw [Gives, h state hbound]
  exact hpost

theorem Reads.then {run : Lower α} {next : α → Lower β} {answer : α} {state : LoweringState}
    {post : β → LoweringState → Prop} (h : Reads locals run answer) (hbound : locals.Bound state)
    (hnext : Gives (next answer) state post) : Gives (run >>= next) state post := by
  rw [gives_bind]
  exact h.gives hbound hnext

/-- The compilation yields the answer, which mentions the slots of these references in order and no
others.  They are references to variables in scope, noted with the types of those. -/
structure Refers (locals : Locals) (run : Lower α) (answer : α) (mentions : List Mention)
    (references : List Reference) : Prop where
  reads : Reads locals run answer
  mentions : mentions = references.map Reference.mention
  noted : ∀ reference ∈ references, reference.noted = some reference.target.ty
  known : ∀ reference ∈ references, reference.target.slot ∈ locals.slots

end Lower

/-- What an expression compiles to wherever the variables are in scope. -/
def Expr.Compiles (fabrics : Fabrics) (locals : Locals) (expr : Expr) (code : Code) : Prop :=
  Lower.Refers locals (Lower.lowerExpr fabrics expr) code code.mentions
    (expr.references locals)

/-- Code of an expression only reads slots, all of them of variables in scope. -/
theorem Expr.Compiles.reads_known {fabrics : Fabrics} {locals : Locals} {expr : Expr} {code : Code}
    (h : expr.Compiles fabrics locals code) {mention : Mention} (hmem : mention ∈ code.mentions) :
    ∃ slot ∈ locals.slots, mention = .read slot := by
  rw [h.mentions] at hmem
  obtain ⟨reference, hreference, rfl⟩ := List.mem_map.mp hmem
  exact ⟨_, h.known reference hreference, rfl⟩

namespace Lower

variable {α β γ : Type} {locals : Locals} {ctx : CheckContext} {fabrics : Fabrics}
variable {left right : List Mention} {references others : List Reference}

theorem Refers.pure (answer : α) : Refers locals (pure answer) answer [] [] :=
  ⟨Reads.pure answer, rfl, nofun, nofun⟩

/-- One part. -/
theorem Refers.bind {run : Lower α} {next : α → Lower β} {answer : α} {last : β}
    (h : Refers locals run answer left references)
    (hnext : Reads locals (next answer) last) :
    Refers locals (run >>= next) last left references :=
  ⟨h.reads.bind hnext, h.mentions, h.noted, h.known⟩

/-- A part after what is only looked up. -/
theorem Refers.after {run : Lower α} {next : α → Lower β} {answer : α} {last : β}
    (h : Reads locals run answer) (hnext : Refers locals (next answer) last left references) :
    Refers locals (run >>= next) last left references :=
  ⟨h.bind hnext.reads, hnext.mentions, hnext.noted, hnext.known⟩

/-- Two parts, one after the other. -/
theorem Refers.bind₂ {run : Lower α} {run' : Lower β} {next : α → β → Lower γ} {answer : α}
    {answer' : β} {last : γ} (h : Refers locals run answer left references)
    (h' : Refers locals run' answer' right others)
    (hnext : Reads locals (next answer answer') last) :
    Refers locals (run >>= fun answer => run' >>= next answer) last (left ++ right)
      (references ++ others) := by
  refine ⟨h.reads.bind (h'.reads.bind hnext), ?_, fun reference hmem => ?_,
    fun reference hmem => ?_⟩
  · rw [List.map_append, h.mentions, h'.mentions]
  · exact (List.mem_append.mp hmem).elim (h.noted reference) (h'.noted reference)
  · exact (List.mem_append.mp hmem).elim (h.known reference) (h'.known reference)

theorem Reads.typeOf {expr : Expr} {ty : Ty} (h : expr.ty? = some ty) :
    Reads locals (typeOf expr) ty := by
  unfold Lower.typeOf
  rw [h]
  exact Reads.pure ty

theorem Reads.indexKind (locals : Locals) {object : Expr} {ty : Ty} (h : object.ty? = some ty) :
    ∃ kind, Reads locals (indexKind object) kind ∧ (kind = .text → ty = .text) := by
  unfold Lower.indexKind
  cases ty with
  | map => exact ⟨.map, (Reads.typeOf h).bind (Reads.pure _), nofun⟩
  | text => exact ⟨.text, (Reads.typeOf h).bind (Reads.pure _), fun _ => rfl⟩
  | _ => exact ⟨.array, (Reads.typeOf h).bind (Reads.pure _), nofun⟩

theorem Reads.addsText {op : BinaryOp} {result : Expr} {ty : Ty} (h : result.ty? = some ty) :
    ∃ concat, Reads locals (addsText op result) concat := by
  unfold Lower.addsText
  split
  · exact ⟨_, (Reads.typeOf h).bind (Reads.pure _)⟩
  · exact ⟨_, Reads.pure false⟩

theorem Reads.localOfPath? (path : Path) :
    Reads locals (localOfPath? path) ((locals.ofPath? path).map Local.slot) := by
  intro state hbound
  match path with
  | [] | _ :: _ :: _ => rfl
  | [name] => exact congrArg (·, state) (hbound name)

theorem localOfPath?_types (htypes : ctx.scopes = locals.types) (path : Path) :
    ctx.localOfPath? path = (locals.ofPath? path).map Local.ty := by
  match path with
  | [] | _ :: _ :: _ => rfl
  | [name] =>
    simp only [CheckContext.localOfPath?, Locals.ofPath?, CheckContext.local?, htypes,
      Locals.findLocal_types]

/-- The slots of an operation are those of its two sides. -/
theorem binaryCode_mentions (op : BinaryOp) (concat : Bool) (left right : Code) :
    (binaryCode op concat left right).mentions = left.mentions ++ right.mentions := by
  cases op <;> cases concat <;> rfl

open CheckContext

mutual

theorem lowerExpr_refers (hfabrics : ctx.Provides fabrics) (htypes : ctx.scopes = locals.types) :
    ∀ {expr : Expr} {ty : Ty}, ctx.ExprTyped expr ty → ∃ code, expr.Compiles fabrics locals code
  | _, _, .num | _, _, .text | _, _, .bool | _, _, .null | _, _, .this | _, _, .caller
  | _, _, .random => ⟨_, Refers.pure _⟩
  | _, _, .newObject _ => ⟨_, (Reads.typeOf rfl).bind (Reads.pure _), rfl, nofun, nofun⟩
  | _, .array _, .newContainer _ _ | _, .map _ _, .newContainer _ _
  | _, .set _, .newContainer _ _ => ⟨_, (Reads.typeOf rfl).bind (Reads.pure _), rfl, nofun, nofun⟩
  | _, _, @ExprTyped.var _ path ty hlocal => by
    rw [localOfPath?_types htypes, Option.map_eq_some_iff] at hlocal
    obtain ⟨found, hfound, rfl⟩ := hlocal
    have hreferences : ((Form.name path).noted found.ty).references locals =
        [⟨some found.ty, found⟩] := by
      simp [Form.noted, Expr.references, Form.references, hfound]
    refine ⟨.local found.slot, ?_, ?_, ?_, ?_⟩
    · refine (Reads.localOfPath? path).bind ?_
      rw [hfound]
      exact Reads.pure _
    all_goals rw [hreferences]
    · rfl
    · simp
    · simpa using Locals.slot_mem_of_ofPath? hfound
  | _, _, @ExprTyped.fabric _ path id hlocal hfabric => by
    obtain ⟨value, hvalue⟩ := hfabrics _ _ hfabric
    rw [localOfPath?_types htypes, Option.map_eq_none_iff] at hlocal
    have hreferences : ((Form.name path).notedAs (.array .text) (.fabric id)).references locals =
        [] := by
      simp [Form.notedAs, Expr.references, Form.references, hlocal]
    refine ⟨.const value, ?_, ?_, ?_, ?_⟩
    · refine (Reads.localOfPath? path).bind ?_
      simp only [hlocal, Option.map_none, Option.bind_some, hvalue]
      exact Reads.pure _
    all_goals rw [hreferences]
    · rfl
    all_goals nofun
  | _, _, .field hobject _ =>
    have ⟨object, hobject⟩ := lowerExpr_refers hfabrics htypes hobject
    ⟨.getField object _ _, hobject.bind (Reads.pure _)⟩
  | _, _, .indexArray hobject hindex _ _ | _, _, .indexText hobject hindex _ _
  | _, _, .indexMap hobject hindex _ _ =>
    have ⟨kind, hkind, _⟩ := Reads.indexKind locals hobject.ty?
    have ⟨object, hobject⟩ := lowerExpr_refers hfabrics htypes hobject
    have ⟨index, hindex⟩ := lowerExpr_refers hfabrics htypes hindex
    ⟨.index object kind index _,
      .after hkind (.after (Reads.typeOf rfl) (hobject.bind₂ hindex (Reads.pure _)))⟩
  | _, _, .indexTuple hobject _ _ =>
    have ⟨object, hobject⟩ := lowerExpr_refers hfabrics htypes hobject
    ⟨.tupleGet object _, hobject.bind (Reads.pure _)⟩
  | _, _, .call hobject _ _ hargs =>
    have ⟨object, hobject⟩ := lowerExpr_refers hfabrics htypes hobject
    have ⟨args, hargs⟩ := lowerArgs_refers hfabrics htypes hargs
    ⟨.call object _ args _, hobject.bind₂ hargs (Reads.pure _)⟩
  | _, _, .superCall _ _ hargs =>
    have ⟨args, hargs⟩ := lowerArgs_refers hfabrics htypes hargs
    ⟨.superCall _ _ args, hargs.bind (Reads.pure _)⟩
  | _, _, @ExprTyped.binary _ op _ _ _ _ ty hleft _ hright _ _ => by
    obtain ⟨concat, hconcat⟩ :
        ∃ concat, Reads locals (addsText op (.mk (some ⟨ty, none⟩) .null)) concat :=
      Reads.addsText rfl
    obtain ⟨left, hleft⟩ := lowerExpr_refers hfabrics htypes hleft
    obtain ⟨right, hright⟩ := lowerExpr_refers hfabrics htypes hright
    refine ⟨binaryCode op concat left right, ?_⟩
    rw [Expr.Compiles, binaryCode_mentions]
    exact .after hconcat (hleft.bind₂ hright (Reads.pure _))
  | _, _, .neg hoperand _ _ =>
    have ⟨operand, hoperand⟩ := lowerExpr_refers hfabrics htypes hoperand
    ⟨.neg operand, hoperand.bind (Reads.pure _)⟩
  | _, _, .not hoperand _ _ =>
    have ⟨operand, hoperand⟩ := lowerExpr_refers hfabrics htypes hoperand
    ⟨.not operand, hoperand.bind (Reads.pure _)⟩
  | _, _, .clone hvalue _ =>
    have ⟨value, hvalue⟩ := lowerExpr_refers hfabrics htypes hvalue
    ⟨.clone value, hvalue.bind (Reads.pure _)⟩
  | _, _, .len hvalue =>
    have ⟨value, hvalue⟩ := lowerExpr_refers hfabrics htypes hvalue
    ⟨.len value, hvalue.bind (Reads.pure _)⟩
  | _, _, .is hvalue _ =>
    have ⟨value, hvalue⟩ := lowerExpr_refers hfabrics htypes hvalue
    ⟨.is value _, hvalue.bind (Reads.pure _)⟩
  | _, _, .cast hvalue _ _ _ =>
    have ⟨value, hvalue⟩ := lowerExpr_refers hfabrics htypes hvalue
    ⟨.cast value _, .after (Reads.typeOf rfl) (hvalue.bind (Reads.pure _))⟩
  | _, _, .array hvalues _ =>
    have ⟨elements, hvalues⟩ := lowerValues_refers hfabrics htypes hvalues
    ⟨.array elements, hvalues.bind (Reads.pure _)⟩
  | _, _, .tuple hvalues =>
    have ⟨elements, hvalues⟩ := lowerValues_refers hfabrics htypes hvalues
    ⟨.tuple elements, hvalues.bind (Reads.pure _)⟩
  | _, _, .hasKey hcollection hkey _ _ | _, _, .hasItem hcollection hkey _ _ =>
    have ⟨collection, hcollection⟩ := lowerExpr_refers hfabrics htypes hcollection
    have ⟨key, hkey⟩ := lowerExpr_refers hfabrics htypes hkey
    ⟨.has collection key, hcollection.bind₂ hkey (Reads.pure _)⟩
  | _, _, .suggest hsteps =>
    have ⟨steps, hsteps⟩ := lowerSteps_refers hfabrics htypes hsteps
    ⟨.suggest steps, hsteps.bind (Reads.pure _)⟩

theorem lowerArgs_refers (hfabrics : ctx.Provides fabrics) (htypes : ctx.scopes = locals.types) :
    ∀ {params : List Ty} {args : List Expr}, ctx.ArgsTyped params args →
      ∃ codes, Refers locals (lowerExprs fabrics args) codes (Code.allMentions codes)
        (Expr.allReferences locals args)
  | _, _, .nil => ⟨_, Refers.pure _⟩
  | _, _, .cons harg _ _ hargs =>
    have ⟨arg, harg⟩ := lowerExpr_refers hfabrics htypes harg
    have ⟨args, hargs⟩ := lowerArgs_refers hfabrics htypes hargs
    ⟨arg :: args, harg.bind₂ hargs (Reads.pure _)⟩

theorem lowerValues_refers (hfabrics : ctx.Provides fabrics)
    (htypes : ctx.scopes = locals.types) :
    ∀ {types : List Ty} {elements : List Expr}, ctx.ValuesTyped types elements →
      ∃ codes, Refers locals (lowerExprs fabrics elements) codes (Code.allMentions codes)
        (Expr.allReferences locals elements)
  | _, _, .nil => ⟨_, Refers.pure _⟩
  | _, _, .cons helement _ helements =>
    have ⟨element, helement⟩ := lowerExpr_refers hfabrics htypes helement
    have ⟨elements, helements⟩ := lowerValues_refers hfabrics htypes helements
    ⟨element :: elements, helement.bind₂ helements (Reads.pure _)⟩

theorem lowerStep_refers (hfabrics : ctx.Provides fabrics) (htypes : ctx.scopes = locals.types) :
    ∀ {step : SuggestStep}, ctx.StepTyped step →
      ∃ code, Refers locals (lowerStep fabrics step) (some code) code.mentions
        (step.references locals)
  | _, .extend htarget _ =>
    have ⟨target, htarget⟩ := lowerExpr_refers hfabrics htypes htarget
    ⟨.extend target _, htarget.bind (Reads.pure _)⟩
  | _, .retract htarget _ =>
    have ⟨target, htarget⟩ := lowerExpr_refers hfabrics htypes htarget
    ⟨.retract target _, htarget.bind (Reads.pure _)⟩
  | _, .call htarget _ hargs =>
    have ⟨target, htarget⟩ := lowerExpr_refers hfabrics htypes htarget
    have ⟨args, hargs⟩ := lowerArgs_refers hfabrics htypes hargs
    ⟨.call target _ args, htarget.bind₂ hargs (Reads.pure _)⟩

theorem lowerSteps_refers (hfabrics : ctx.Provides fabrics)
    (htypes : ctx.scopes = locals.types) :
    ∀ {steps : List SuggestStep}, ctx.StepsTyped steps →
      ∃ codes, Refers locals (lowerSteps fabrics steps) codes (StepCode.allMentions codes)
        (SuggestStep.allReferences locals steps)
  | _, .nil => ⟨_, Refers.pure _⟩
  | _, .cons hstep hrest =>
    have ⟨step, hstep⟩ := lowerStep_refers hfabrics htypes hstep
    have ⟨rest, hrest⟩ := lowerSteps_refers hfabrics htypes hrest
    ⟨step :: rest, hstep.bind₂ hrest (Reads.pure _)⟩

end

theorem lowerFits_refers (hfabrics : ctx.Provides fabrics) (htypes : ctx.scopes = locals.types)
    {expected : Ty} {expr : Expr} (hfits : ctx.Fits expected expr) :
    ∃ code, expr.Compiles fabrics locals code := by
  obtain ⟨ty, htyped, -⟩ := hfits
  exact lowerExpr_refers hfabrics htypes htyped

theorem lowerOperand_refers (hfabrics : ctx.Provides fabrics)
    (htypes : ctx.scopes = locals.types) {op : CompoundOp} {ty : Ty} {value : Expr}
    {inPlace : Bool} (h : ctx.OperandTyped op ty value inPlace) :
    ∃ code, value.Compiles fabrics locals code := by
  cases h with
  | text htyped => exact lowerExpr_refers hfabrics htypes htyped
  | addToArray hfits | addToSet hfits | removeFromMap hfits | removeFromSet hfits | number hfits
  | suggestion hfits => exact lowerFits_refers hfabrics htypes hfits

end Lower

end Attire
