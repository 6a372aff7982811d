import Attire.Typing.Stmt

namespace Attire

/-! Typing rules for trees that carry the notes of the checker. -/

def Form.noted (form : Form) (ty : Ty) : Expr := .mk (some ⟨ty, none⟩) form

def Form.notedAs (form : Form) (ty : Ty) (meaning : Meaning) : Expr :=
  .mk (some ⟨ty, some meaning⟩) form

namespace CheckContext

mutual

inductive ExprTyped (ctx : CheckContext) : Expr → Ty → Prop
  | num {value : Float} : ExprTyped ctx ((Form.num value).noted .num) .num
  | text {value : String} : ExprTyped ctx ((Form.text value).noted .text) .text
  | bool {value : Bool} : ExprTyped ctx ((Form.bool value).noted .bool) .bool
  | null : ExprTyped ctx (Form.null.noted .null) .null
  | this : ExprTyped ctx (Form.this.noted (.object ctx.cls)) (.object ctx.cls)
  | caller :
      ExprTyped ctx (Form.caller.noted ((ctx.rootClass.map Ty.object).getD .null))
        ((ctx.rootClass.map Ty.object).getD .null)
  | random : ExprTyped ctx (Form.random.noted .num) .num
  | var {path : Path} {ty : Ty} :
      ctx.localOfPath? path = some ty → ExprTyped ctx ((Form.name path).noted ty) ty
  | fabric {path : Path} {id : FabricId} :
      ctx.localOfPath? path = none → ctx.names.resolve path = .ok (.fabric id) →
      ExprTyped ctx ((Form.name path).notedAs (.array .text) (.fabric id)) (.array .text)
  | field {object : Expr} {name : String} {cls : ClassId} {info : FieldInfo} :
      ExprTyped ctx object (.object cls) → ctx.lookupField cls name = .ok info →
      ExprTyped ctx ((Form.field object name).notedAs info.ty (.field info)) info.ty
  | indexArray {object index : Expr} {element indexTy : Ty} :
      ExprTyped ctx object (.array element) → ExprTyped ctx index indexTy →
      indexTy.isValue → ctx.accepts .num indexTy →
      ExprTyped ctx ((Form.index object index).noted element) element
  | indexText {object index : Expr} {indexTy : Ty} :
      ExprTyped ctx object .text → ExprTyped ctx index indexTy →
      indexTy.isValue → ctx.accepts .num indexTy →
      ExprTyped ctx ((Form.index object index).noted .text) .text
  | indexMap {object index : Expr} {key value indexTy : Ty} :
      ExprTyped ctx object (.map key value) → ExprTyped ctx index indexTy →
      indexTy.isValue → ctx.accepts key indexTy →
      ExprTyped ctx ((Form.index object index).noted value) value
  | indexTuple {object index : Expr} {elements : List Ty} {position : Nat} {ty indexTy : Ty} :
      ExprTyped ctx object (.tuple elements) → ExprTyped ctx index indexTy →
      elements[position]? = some ty →
      ExprTyped ctx ((Form.index object index).notedAs ty (.tupleIndex position)) ty
  | call {object : Expr} {method : String} {args : List Expr} {cls : ClassId} {sig : MethodSig} :
      ExprTyped ctx object (.object cls) → ctx.lookupMethod cls method = .ok sig →
      ctx.effects.allows (callRequirement sig (ctx.receiverPlace object)) →
      ArgsTyped ctx sig.params args →
      ExprTyped ctx ((Form.call object method args).notedAs sig.ret (.method sig)) sig.ret
  | superCall {method : String} {args : List Expr} {parent : ClassId} {sig : MethodSig} :
      ctx.lookupSuper method (ctx.classes.parents ctx.cls) = .ok (parent, sig) →
      ctx.effects.allows (callRequirement sig ⟨.this, false⟩) →
      ArgsTyped ctx sig.params args →
      ExprTyped ctx ((Form.superCall method args).notedAs sig.ret (.superMethod parent sig))
        sig.ret
  | newObject {written : TypeExpr} {cls : ClassId} :
      ctx.resolveType written = .ok (.object cls) →
      ExprTyped ctx ((Form.new written).notedAs (.object cls) (.cls cls)) (.object cls)
  | newContainer {written : TypeExpr} {ty : Ty} :
      ctx.resolveType written = .ok ty → ty.isContainer →
      ExprTyped ctx ((Form.new written).noted ty) ty
  | binary {op : BinaryOp} {left right : Expr} {leftTy rightTy ty : Ty} :
      ExprTyped ctx left leftTy → leftTy.isValue → ExprTyped ctx right rightTy →
      rightTy.isValue → ctx.checkBinary op leftTy rightTy = .ok ty →
      ExprTyped ctx ((Form.binary op left right).noted ty) ty
  | neg {operand : Expr} {operandTy : Ty} :
      ExprTyped ctx operand operandTy → operandTy.isValue → ctx.accepts .num operandTy →
      ExprTyped ctx ((Form.unary .neg operand).noted .num) .num
  | not {operand : Expr} {operandTy : Ty} :
      ExprTyped ctx operand operandTy → operandTy.isValue → ctx.accepts .bool operandTy →
      ExprTyped ctx ((Form.unary .not operand).noted .bool) .bool
  | array {elements : List Expr} {types : List Ty} {common : Ty} :
      ValuesTyped ctx types elements → ctx.commonType types = .ok common →
      ExprTyped ctx ((Form.array elements).noted (.array common)) (.array common)
  | tuple {elements : List Expr} {types : List Ty} :
      ValuesTyped ctx types elements →
      ExprTyped ctx ((Form.tuple elements).noted (.tuple types)) (.tuple types)
  | cast {value : Expr} {written : TypeExpr} {source target : Ty} :
      ExprTyped ctx value source → source.isValue → ctx.resolveType written = .ok target →
      ctx.castable source target →
      ExprTyped ctx ((Form.cast value written).noted target) target
  | clone {value : Expr} {ty : Ty} :
      ExprTyped ctx value ty → ctx.isClonable ty →
      ExprTyped ctx ((Form.clone value).noted ty) ty
  | len {value : Expr} {ty : Ty} :
      ExprTyped ctx value ty → ExprTyped ctx ((Form.len value).noted .num) .num
  | hasKey {collection key : Expr} {keyTy valueTy ty : Ty} :
      ExprTyped ctx collection (.map keyTy valueTy) → ExprTyped ctx key ty → ty.isValue →
      ctx.accepts keyTy ty → ExprTyped ctx ((Form.has collection key).noted .bool) .bool
  | hasItem {collection key : Expr} {keyTy ty : Ty} :
      ExprTyped ctx collection (.set keyTy) → ExprTyped ctx key ty → ty.isValue →
      ctx.accepts keyTy ty → ExprTyped ctx ((Form.has collection key).noted .bool) .bool
  | is {value : Expr} {path : Path} {cls target : ClassId} :
      ExprTyped ctx value (.object cls) → ctx.resolveClass path = .ok target →
      ExprTyped ctx ((Form.is value path).notedAs .bool (.cls target)) .bool
  | suggest {steps : List SuggestStep} :
      StepsTyped ctx steps → ExprTyped ctx ((Form.suggest steps).noted .suggestion) .suggestion

/-- Arguments for parameters. -/
inductive ArgsTyped (ctx : CheckContext) : List Ty → List Expr → Prop
  | nil : ArgsTyped ctx [] []
  | cons {param ty : Ty} {params : List Ty} {arg : Expr} {args : List Expr} :
      ExprTyped ctx arg ty → ty.isValue → ctx.accepts param ty → ArgsTyped ctx params args →
      ArgsTyped ctx (param :: params) (arg :: args)

/-- Elements of a literal, with their own types. -/
inductive ValuesTyped (ctx : CheckContext) : List Ty → List Expr → Prop
  | nil : ValuesTyped ctx [] []
  | cons {ty : Ty} {types : List Ty} {element : Expr} {elements : List Expr} :
      ExprTyped ctx element ty → ty.isValue → ValuesTyped ctx types elements →
      ValuesTyped ctx (ty :: types) (element :: elements)

inductive StepTyped (ctx : CheckContext) : SuggestStep → Prop
  | extend {target : Expr} {path : Path} {cls id : ClassId} :
      ExprTyped ctx target (.object cls) → ctx.resolveClass path = .ok id →
      StepTyped ctx (.extend (some id) target path)
  | retract {target : Expr} {path : Path} {cls id : ClassId} :
      ExprTyped ctx target (.object cls) → ctx.resolveClass path = .ok id →
      StepTyped ctx (.retract (some id) target path)
  | call {target : Expr} {method : String} {args : List Expr} {cls : ClassId} {sig : MethodSig} :
      ExprTyped ctx target (.object cls) → ctx.lookupMethod cls method = .ok sig →
      ArgsTyped ctx sig.params args → StepTyped ctx (.call (some sig) target method args)

inductive StepsTyped (ctx : CheckContext) : List SuggestStep → Prop
  | nil : StepsTyped ctx []
  | cons {step : SuggestStep} {rest : List SuggestStep} :
      StepTyped ctx step → StepsTyped ctx rest → StepsTyped ctx (step :: rest)

end

theorem ExprTyped.ty? {ctx : CheckContext} {expr : Expr} {ty : Ty} (h : ctx.ExprTyped expr ty) :
    expr.ty? = some ty := by
  cases h <;> rfl

/-- An expression whose value may stand where `expected` is wanted. -/
def Fits (ctx : CheckContext) (expected : Ty) (expr : Expr) : Prop :=
  ∃ ty, ctx.ExprTyped expr ty ∧ ty.isValue ∧ ctx.accepts expected ty

/-- Locations that can be assigned to: variables, fields, and elements of arrays and maps. -/
def Assignable (target : Expr) : Prop :=
  match target.form with
  | .name _ | .field _ _ => True
  | .index object _ =>
    (∃ element, object.ty? = some (.array element)) ∨
      ∃ key value, object.ty? = some (.map key value)
  | _ => False

/-- The right sides of compound assignments; the flag says that a collection is changed in
place. -/
inductive OperandTyped (ctx : CheckContext) : CompoundOp → Ty → Expr → Bool → Prop
  | addToArray {element : Ty} {value : Expr} :
      ctx.Fits element value → OperandTyped ctx .add (.array element) value true
  | addToSet {element : Ty} {value : Expr} :
      ctx.Fits element value → OperandTyped ctx .add (.set element) value true
  | removeFromMap {key content : Ty} {value : Expr} :
      ctx.Fits key value → OperandTyped ctx .sub (.map key content) value true
  | removeFromSet {element : Ty} {value : Expr} :
      ctx.Fits element value → OperandTyped ctx .sub (.set element) value true
  | number {op : CompoundOp} {value : Expr} :
      ctx.Fits .num value → OperandTyped ctx op .num value false
  | text {value : Expr} {ty : Ty} :
      ctx.ExprTyped value ty → ty.isValue → OperandTyped ctx .add .text value false
  | suggestion {value : Expr} :
      ctx.Fits .suggestion value → OperandTyped ctx .add .suggestion value false

mutual

/-- The last context is that of the statements after the statement. -/
inductive StmtTyped : CheckContext → Stmt → CheckContext → Prop
  | letInferred {ctx after : CheckContext} {name : String} {init : Expr} {ty : Ty}
      {span : Span} :
      ctx.ExprTyped init ty → ty.isValue → ty.same .null = false →
      ctx.declare name ty = .ok after →
      StmtTyped ctx (.let (some ty) name none (some init) span) after
  | letDeclared {ctx after : CheckContext} {name : String} {written : TypeExpr} {init : Expr}
      {ty : Ty} {span : Span} :
      ctx.resolveType written = .ok ty → ctx.Fits ty init → ty.isValue →
      ctx.declare name ty = .ok after →
      StmtTyped ctx (.let (some ty) name (some written) (some init) span) after
  | letDefault {ctx after : CheckContext} {name : String} {written : TypeExpr} {ty : Ty}
      {span : Span} :
      ctx.resolveType written = .ok ty → ty.isValue → ctx.declare name ty = .ok after →
      StmtTyped ctx (.let (some ty) name (some written) none span) after
  | assign {ctx : CheckContext} {target value : Expr} {ty : Ty} {span : Span} :
      ctx.ExprTyped target ty → Assignable target → ctx.Fits ty value →
      ctx.checkWrite target "Assigning" = .ok () →
      StmtTyped ctx (.assign target value span) ctx
  | change {ctx : CheckContext} {op : CompoundOp} {target value : Expr} {ty : Ty}
      {action : String} {span : Span} :
      ctx.ExprTyped target ty → ctx.OperandTyped op ty value true →
      ctx.requireWrite (ctx.placeOf target) false action = .ok () →
      StmtTyped ctx (.compound op target value span) ctx
  | update {ctx : CheckContext} {op : CompoundOp} {target value : Expr} {ty : Ty}
      {span : Span} :
      ctx.ExprTyped target ty → Assignable target → ctx.OperandTyped op ty value false →
      ctx.checkWrite target "Updating" = .ok () →
      StmtTyped ctx (.compound op target value span) ctx
  | expr {ctx : CheckContext} {expr : Expr} {ty : Ty} {span : Span} :
      ctx.ExprTyped expr ty → StmtTyped ctx (.expr expr span) ctx
  | branch {ctx : CheckContext} {cond : Expr} {yes no : List Stmt} {span : Span} :
      ctx.Fits .bool cond → BlockTyped (ctx.enter ∅) yes → BlockTyped (ctx.enter ∅) no →
      StmtTyped ctx (.if cond yes no span) ctx
  | while {ctx : CheckContext} {cond : Expr} {body : List Stmt} {span : Span} :
      ctx.Fits .bool cond → BlockTyped { ctx.enter ∅ with inLoop := true } body →
      StmtTyped ctx (.while cond body span) ctx
  | for {ctx : CheckContext} {plan : LoopPlan} {key : String} {value : Option String}
      {keyTy valueTy : Option TypeExpr} {iter : Expr} {ty : Ty} {body : List Stmt}
      {locals : Table String Ty} {span : Span} :
      ctx.ExprTyped iter ty → ty.isValue → ctx.loopPlan ty value.isSome = .ok plan →
      loopVariables plan key value = .ok locals →
      BlockTyped { ctx.enter locals with inLoop := true } body →
      StmtTyped ctx (.for (some plan) key value keyTy valueTy iter body span) ctx
  | returnNothing {ctx : CheckContext} {span : Span} :
      ctx.ret = .void → StmtTyped ctx (.return none span) ctx
  | returnValue {ctx : CheckContext} {value : Expr} {span : Span} :
      ctx.Fits ctx.ret value → StmtTyped ctx (.return (some value) span) ctx
  | break {ctx : CheckContext} {span : Span} :
      ctx.inLoop → StmtTyped ctx (.break span) ctx
  | continue {ctx : CheckContext} {span : Span} :
      ctx.inLoop → StmtTyped ctx (.continue span) ctx
  | extend {ctx : CheckContext} {target : Expr} {path : Path} {cls id : ClassId}
      {span : Span} :
      ctx.ExprTyped target (.object cls) → ctx.resolveClass path = .ok id →
      ctx.effects.mutatingThis ∨ ctx.effects.mutating →
      StmtTyped ctx (.extend (some id) target path span) ctx
  | retract {ctx : CheckContext} {target : Expr} {path : Path} {cls id : ClassId}
      {span : Span} :
      ctx.ExprTyped target (.object cls) → ctx.resolveClass path = .ok id →
      ctx.effects.mutatingThis ∨ ctx.effects.mutating →
      StmtTyped ctx (.retract (some id) target path span) ctx
  | enforce {ctx : CheckContext} {suggestion : Expr} {span : Span} :
      ctx.Fits .suggestion suggestion → ctx.effects.mutating →
      StmtTyped ctx (.enforce suggestion span) ctx

inductive BlockTyped : CheckContext → List Stmt → Prop
  | nil {ctx : CheckContext} : BlockTyped ctx []
  | cons {ctx next : CheckContext} {stmt : Stmt} {rest : List Stmt} :
      StmtTyped ctx stmt next → BlockTyped next rest → BlockTyped ctx (stmt :: rest)

end

theorem declare_scopes {ctx after : CheckContext} {name : String} {ty : Ty}
    (h : ctx.declare name ty = .ok after) : ∃ scopes, after = { ctx with scopes } := by
  unfold declare at h
  split at h
  case h_1 =>
    cases h
    exact ⟨_, rfl⟩
  case h_2 =>
    split at h
    · cases h
    · cases h
      exact ⟨_, rfl⟩

/-- A statement changes nothing of the context but its variables. -/
theorem StmtTyped.scoped {ctx after : CheckContext} {stmt : Stmt} (h : StmtTyped ctx stmt after) :
    ∃ scopes, after = { ctx with scopes } := by
  cases h with
  | letInferred _ _ _ hdeclare => exact declare_scopes hdeclare
  | letDeclared _ _ _ hdeclare => exact declare_scopes hdeclare
  | letDefault _ _ hdeclare => exact declare_scopes hdeclare
  | _ => exact ⟨ctx.scopes, rfl⟩

end CheckContext

end Attire
