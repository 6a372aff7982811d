import Attire.Proofs.Typing.Checker

namespace Attire

/-! Bodies in which every expression but `null` itself is of a kind. -/

def Expr.isNull : Expr → Bool
  | .mk _ .null => true
  | _ => false

mutual

/-- Nothing is cast, and no tuple literal has `null` itself as an element.  Where there is no root
class (`rooted` is false), `caller` is not mentioned. -/
def Expr.definite (rooted : Bool) : Expr → Bool
  | .mk _ form => form.definite rooted

def Form.definite (rooted : Bool) : Form → Bool
  | .num _ | .text _ | .bool _ | .null | .this | .name _ | .new _ | .random => true
  | .caller => rooted
  | .cast _ _ => false
  | .field value _ | .unary _ value | .clone value | .len value | .is value _ =>
    value.definite rooted
  | .index left right | .binary _ left right | .has left right =>
    left.definite rooted && right.definite rooted
  | .call object _ args => object.definite rooted && Expr.allDefinite rooted args
  | .superCall _ args => Expr.allDefinite rooted args
  | .array elements => Expr.allDefinite rooted elements
  | .tuple elements => Expr.allDefinite rooted elements && !elements.any Expr.isNull
  | .suggest steps => SuggestStep.allDefinite rooted steps

def Expr.allDefinite (rooted : Bool) : List Expr → Bool
  | [] => true
  | expr :: rest => expr.definite rooted && Expr.allDefinite rooted rest

def SuggestStep.definite (rooted : Bool) : SuggestStep → Bool
  | .extend _ target _ | .retract _ target _ => target.definite rooted
  | .call _ target _ args => target.definite rooted && Expr.allDefinite rooted args

def SuggestStep.allDefinite (rooted : Bool) : List SuggestStep → Bool
  | [] => true
  | step :: rest => step.definite rooted && SuggestStep.allDefinite rooted rest

end

mutual

def Stmt.definite (rooted : Bool) : Stmt → Bool
  | .let _ _ _ init _ => init.all (Expr.definite rooted)
  | .assign left right _ | .compound _ left right _ => left.definite rooted && right.definite rooted
  | .expr value _ | .extend _ value _ _ | .retract _ value _ _ | .enforce value _ =>
    value.definite rooted
  | .if cond yes no _ =>
    cond.definite rooted && (Stmt.allDefinite rooted yes && Stmt.allDefinite rooted no)
  | .while source body _ | .for _ _ _ _ _ source body _ =>
    source.definite rooted && Stmt.allDefinite rooted body
  | .return value _ => value.all (Expr.definite rooted)
  | .break _ | .continue _ => true

def Stmt.allDefinite (rooted : Bool) : List Stmt → Bool
  | [] => true
  | stmt :: rest => stmt.definite rooted && Stmt.allDefinite rooted rest

end

def Member.definite (rooted : Bool) : Member → Bool
  | .field decl => decl.init.all (Expr.definite rooted)
  | .method decl => Stmt.allDefinite rooted decl.body

def ClassDecl.definite (rooted : Bool) (decl : ClassDecl) : Bool :=
  decl.members.all (Member.definite rooted)

/-- The second expression is as definite as the first one. -/
structure Expr.Keeps (rooted : Bool) (expr answer : Expr) : Prop where
  definite : answer.definite rooted = expr.definite rooted
  isNull : answer.isNull = expr.isNull

namespace CheckContext

variable {ctx : CheckContext} {rooted : Bool}

attribute [local simp] Expr.definite Form.definite checked checkedAs

/-- What the checker makes of the expression is as definite. -/
def Leaves (ctx : CheckContext) (rooted : Bool) (expr : Expr) : Prop :=
  ∀ answer : Checked, ctx.checkExpr expr = .ok answer → expr.Keeps rooted answer.2

namespace Leaves

variable {note : Option Note}

theorem need {expr answer : Expr} {expected : Ty} (hexpr : ctx.Leaves rooted expr)
    (h : ctx.need expected (ctx.checkExpr expr) = .ok answer) : expr.Keeps rooted answer := by
  obtain ⟨ty, hresult, -⟩ := need_eq_ok.mp h
  exact hexpr _ hresult

theorem name {path : Path} : ctx.Leaves rooted (.mk note (.name path)) := by
  intro answer h
  rw [checkExpr, checkForm] at h
  split at h
  case h_1 =>
    cases h
    exact ⟨rfl, rfl⟩
  case h_2 =>
    obtain ⟨target, -, h⟩ := bind_eq_ok.mp h
    cases target <;> cases h
    exact ⟨rfl, rfl⟩

theorem field {object : Expr} {name : String} (hobject : ctx.Leaves rooted object) :
    ctx.Leaves rooted (.mk note (.field object name)) := by
  intro answer h
  simp only [checkExpr, checkForm, bind_eq_ok, needValue_eq_ok] at h
  obtain ⟨_, ⟨hresult, -⟩, _, -, _, -, h⟩ := h
  cases h
  exact ⟨(hobject _ hresult).definite, rfl⟩

theorem index {object index : Expr} (hobject : ctx.Leaves rooted object)
    (hindex : ctx.Leaves rooted index) : ctx.Leaves rooted (.mk note (.index object index)) := by
  have hpair : ∀ {object' index' : Expr} {note' : Option Note}, object.Keeps rooted object' →
      index.Keeps rooted index' →
      Expr.Keeps rooted (.mk note (.index object index)) (.mk note' (.index object' index')) :=
    fun hobject hindex => ⟨by simp [hobject.definite, hindex.definite], rfl⟩
  intro answer h
  simp only [checkExpr, checkForm, bind_eq_ok, needValue_eq_ok] at h
  obtain ⟨⟨ty, object'⟩, ⟨hresult, -⟩, h⟩ := h
  cases ty with
  | array | text | map =>
    obtain ⟨index', hneed, h⟩ := bind_eq_ok.mp h
    cases h
    exact hpair (hobject _ hresult) (hindex.need hneed)
  | tuple elements =>
    dsimp only at h
    split at h
    case h_1 =>
      obtain ⟨_, hresult', h⟩ := bind_eq_ok.mp h
      cases h
      exact hpair (hobject _ hresult) (hindex _ hresult')
    case h_2 => cases h
  | _ => cases h

theorem new {written : TypeExpr} : ctx.Leaves rooted (.mk note (.new written)) := by
  intro answer h
  simp only [checkExpr, checkForm, bind_eq_ok] at h
  obtain ⟨ty, -, h⟩ := h
  cases ty <;> cases h <;> exact ⟨rfl, rfl⟩

theorem binary {op : BinaryOp} {left right : Expr} (hleft : ctx.Leaves rooted left)
    (hright : ctx.Leaves rooted right) : ctx.Leaves rooted (.mk note (.binary op left right)) := by
  intro answer h
  simp only [checkExpr, checkForm, bind_eq_ok, needValue_eq_ok] at h
  obtain ⟨_, ⟨hl, -⟩, _, ⟨hr, -⟩, _, -, h⟩ := h
  cases h
  exact ⟨by simp [(hleft _ hl).definite, (hright _ hr).definite], rfl⟩

theorem unary {op : UnaryOp} {operand : Expr} (hoperand : ctx.Leaves rooted operand) :
    ctx.Leaves rooted (.mk note (.unary op operand)) := by
  intro answer h
  simp only [checkExpr, checkForm, bind_eq_ok] at h
  obtain ⟨_, hneed, h⟩ := h
  cases h
  exact ⟨(hoperand.need hneed).definite, rfl⟩

theorem cast {value : Expr} {written : TypeExpr} : ctx.Leaves rooted (.mk note (.cast value written)) := by
  intro answer h
  simp only [checkExpr, checkForm, bind_eq_ok, needValue_eq_ok, if_eq_ok] at h
  obtain ⟨_, -, _, -, -, rfl⟩ := h
  exact ⟨rfl, rfl⟩

theorem clone {value : Expr} (hvalue : ctx.Leaves rooted value) :
    ctx.Leaves rooted (.mk note (.clone value)) := by
  intro answer h
  simp only [checkExpr, checkForm, bind_eq_ok, needValue_eq_ok, if_eq_ok] at h
  obtain ⟨_, ⟨hty, -⟩, -, rfl⟩ := h
  exact ⟨(hvalue _ hty).definite, rfl⟩

theorem len {value : Expr} (hvalue : ctx.Leaves rooted value) :
    ctx.Leaves rooted (.mk note (.len value)) := by
  intro answer h
  simp only [checkExpr, checkForm, bind_eq_ok, needValue_eq_ok] at h
  obtain ⟨⟨ty, _⟩, ⟨hty, -⟩, h⟩ := h
  cases ty <;> cases h <;> exact ⟨(hvalue _ hty).definite, rfl⟩

theorem has {collection key : Expr} (hcollection : ctx.Leaves rooted collection)
    (hkey : ctx.Leaves rooted key) : ctx.Leaves rooted (.mk note (.has collection key)) := by
  intro answer h
  simp only [checkExpr, checkForm, bind_eq_ok, needValue_eq_ok] at h
  obtain ⟨⟨ty, _⟩, ⟨hty, -⟩, h⟩ := h
  cases ty with
  | map | set =>
    obtain ⟨_, hneed, h⟩ := bind_eq_ok.mp h
    cases h
    exact ⟨by simp [(hcollection _ hty).definite, (hkey.need hneed).definite], rfl⟩
  | _ => cases h

theorem is {value : Expr} {path : Path} (hvalue : ctx.Leaves rooted value) :
    ctx.Leaves rooted (.mk note (.is value path)) := by
  intro answer h
  simp only [checkExpr, checkForm, bind_eq_ok, needValue_eq_ok] at h
  obtain ⟨_, ⟨hty, -⟩, _, -, _, -, h⟩ := h
  cases h
  exact ⟨(hvalue _ hty).definite, rfl⟩

end Leaves

mutual

theorem leaves : ∀ expr : Expr, ctx.Leaves rooted expr
  | .mk _ (.num _) | .mk _ (.text _) | .mk _ (.bool _) | .mk _ .null | .mk _ .this
  | .mk _ .caller | .mk _ .random => by
    rintro _ ⟨⟩
    exact ⟨rfl, rfl⟩
  | .mk _ (.name _) => .name
  | .mk _ (.field object _) => .field (leaves object)
  | .mk _ (.index object index) => .index (leaves object) (leaves index)
  | .mk _ (.call object _ args) => by
    intro answer h
    simp only [checkExpr, checkForm, bind_eq_ok, needValue_eq_ok] at h
    obtain ⟨_, ⟨hobject, -⟩, _, -, sig, -, _, -, _, hcount, args', hargs, h⟩ := h
    cases h
    have hargs := leavesArgs args (countArgs_eq_ok.mp hcount) hargs
    exact ⟨by simp [(leaves object _ hobject).definite, hargs], rfl⟩
  | .mk _ (.superCall _ args) => by
    intro answer h
    simp only [checkExpr, checkForm, bind_eq_ok] at h
    obtain ⟨⟨parent, sig⟩, -, _, -, _, hcount, args', hargs, h⟩ := h
    cases h
    exact ⟨leavesArgs args (countArgs_eq_ok.mp hcount) hargs, rfl⟩
  | .mk _ (.new _) => .new
  | .mk _ (.binary _ left right) => .binary (leaves left) (leaves right)
  | .mk _ (.unary _ operand) => .unary (leaves operand)
  | .mk _ (.array elements) => by
    intro answer h
    simp only [checkExpr, checkForm, bind_eq_ok] at h
    obtain ⟨_, hvalues, _, -, h⟩ := h
    cases h
    exact ⟨(leavesValues elements hvalues).1, rfl⟩
  | .mk _ (.tuple elements) => by
    intro answer h
    simp only [checkExpr, checkForm, bind_eq_ok] at h
    obtain ⟨_, hvalues, h⟩ := h
    cases h
    obtain ⟨hdefinite, hnull⟩ := leavesValues elements hvalues
    exact ⟨by simp only [checked, Expr.definite, Form.definite, hdefinite, hnull], rfl⟩
  | .mk _ (.cast _ _) => .cast
  | .mk _ (.clone value) => .clone (leaves value)
  | .mk _ (.len value) => .len (leaves value)
  | .mk _ (.has collection key) => .has (leaves collection) (leaves key)
  | .mk _ (.is value _) => .is (leaves value)
  | .mk _ (.suggest steps) => by
    intro answer h
    simp only [checkExpr, checkForm, bind_eq_ok] at h
    obtain ⟨_, hsteps, h⟩ := h
    cases h
    exact ⟨leavesSteps steps hsteps, rfl⟩

theorem leavesArgs : ∀ (args : List Expr) {params : List Ty} {answer : List Expr},
    args.length = params.length → ctx.checkArgs params args = .ok answer →
    Expr.allDefinite rooted answer = Expr.allDefinite rooted args
  | [], [], _, _, h => by
    rw [checkArgs] at h
    · cases h
      rfl
    · nofun
  | arg :: args, param :: params, _, hlength, h => by
    simp only [checkArgs, bind_eq_ok] at h
    obtain ⟨arg', hneed, args', hargs, h⟩ := h
    cases h
    rw [Expr.allDefinite, Expr.allDefinite, ((leaves arg).need hneed).definite,
      leavesArgs args (by simpa using hlength) hargs]

theorem leavesValues : ∀ (elements : List Expr) {answer : List Ty × List Expr},
    ctx.checkValues elements = .ok answer →
    Expr.allDefinite rooted answer.2 = Expr.allDefinite rooted elements ∧
      answer.2.any Expr.isNull = elements.any Expr.isNull
  | [], _, h => by
    cases h
    exact ⟨rfl, rfl⟩
  | element :: rest, _, h => by
    simp only [checkValues, bind_eq_ok, needValue_eq_ok] at h
    obtain ⟨⟨ty, element'⟩, ⟨hty, -⟩, ⟨types, elements'⟩, hrest, h⟩ := h
    cases h
    obtain ⟨hdefinite, hnull⟩ := leavesValues rest hrest
    obtain ⟨hfirst, hfirstNull⟩ := leaves element _ hty
    exact ⟨by rw [Expr.allDefinite, Expr.allDefinite, hfirst, hdefinite],
      by rw [List.any_cons, List.any_cons, hfirstNull, hnull]⟩

theorem leavesStep : ∀ (step : SuggestStep) {answer : SuggestStep},
    ctx.checkStep step = .ok answer → answer.definite rooted = step.definite rooted
  | .extend _ target _, _, h | .retract _ target _, _, h => by
    simp only [checkStep, bind_eq_ok, needValue_eq_ok] at h
    obtain ⟨_, ⟨hty, -⟩, _, -, _, -, h⟩ := h
    cases h
    exact (leaves target _ hty).definite
  | .call _ target _ args, _, h => by
    simp only [checkStep, bind_eq_ok, needValue_eq_ok] at h
    obtain ⟨_, ⟨hty, -⟩, _, -, sig, -, _, hcount, args', hargs, h⟩ := h
    cases h
    rw [SuggestStep.definite, SuggestStep.definite, (leaves target _ hty).definite,
      leavesArgs args (countArgs_eq_ok.mp hcount) hargs]

theorem leavesSteps : ∀ (steps : List SuggestStep) {answer : List SuggestStep},
    ctx.checkSteps steps = .ok answer →
    SuggestStep.allDefinite rooted answer = SuggestStep.allDefinite rooted steps
  | [], _, h => by
    cases h
    rfl
  | step :: rest, _, h => by
    simp only [checkSteps, bind_eq_ok] at h
    obtain ⟨step', hstep, rest', hrest, h⟩ := h
    cases h
    rw [SuggestStep.allDefinite, SuggestStep.allDefinite, leavesStep step hstep,
      leavesSteps rest hrest]

end

section

variable (rooted)

theorem definite_of_need {expected : Ty} {expr answer : Expr}
    (h : ctx.need expected (ctx.checkExpr expr) = .ok answer) :
    answer.definite rooted = expr.definite rooted :=
  ((leaves expr).need h).definite

theorem definite_of_checkExpr {expr : Expr} {answer : Checked} (h : ctx.checkExpr expr = .ok answer) :
    answer.2.definite rooted = expr.definite rooted :=
  (leaves expr answer h).definite

theorem checkTarget_definite {target : Expr} {answer : Checked}
    (h : ctx.checkTarget target = .ok answer) :
    answer.2.definite rooted = target.definite rooted := by
  obtain ⟨note, form⟩ := target
  cases form with
  | name path => exact definite_of_checkExpr rooted h
  | field object name => exact definite_of_checkExpr rooted h
  | index object index =>
    obtain ⟨⟨ty, target⟩, hresult, h⟩ := bind_eq_ok.mp h
    dsimp only at h
    split at h
    case h_2 => cases h
    case h_1 =>
      split at h
      case h_3 => cases h
      all_goals
        cases h
        exact definite_of_checkExpr rooted hresult
  | _ => cases h

theorem checkOperand_definite {op : CompoundOp} {targetTy : Ty} {value : Expr}
    {answer : Expr × Bool} (h : ctx.checkOperand op targetTy value = .ok answer) :
    answer.1.definite rooted = value.definite rooted := by
  unfold checkOperand at h
  dsimp only at h
  split at h
  case h_6 =>
    simp only [bind_eq_ok, needValue_eq_ok, if_eq_ok] at h
    obtain ⟨_, ⟨hresult, -⟩, -, rfl⟩ := h
    exact definite_of_checkExpr rooted hresult
  case h_8 => cases h
  all_goals
    obtain ⟨_, hneed, h⟩ := bind_eq_ok.mp h
    cases h
    exact definite_of_need rooted hneed

theorem checkCompound_definite {op : CompoundOp} {target value : Expr} {answer : Expr × Expr}
    (h : ctx.checkCompound op target value = .ok answer) :
    (answer.1.definite rooted && answer.2.definite rooted) =
      (target.definite rooted && value.definite rooted) := by
  obtain ⟨⟨ty, target'⟩, htarget, h⟩ := bind_eq_ok.mp h
  obtain ⟨⟨value', inPlace⟩, hoperand, h⟩ := bind_eq_ok.mp h
  have hvalue : value'.definite rooted = value.definite rooted :=
    checkOperand_definite rooted hoperand
  have htarget : target'.definite rooted = target.definite rooted := by
    unfold checkCompoundTarget at htarget
    split at htarget
    · exact definite_of_checkExpr rooted htarget
    · exact checkTarget_definite rooted htarget
  cases inPlace <;>
  · obtain ⟨_, -, h⟩ := bind_eq_ok.mp h
    cases h
    rw [hvalue, htarget]

theorem checkLet_definite {name : String} {ty : Option TypeExpr} {init : Option Expr}
    {answer : Ty × Option Expr} (h : ctx.checkLet name ty init = .ok answer) :
    answer.2.all (Expr.definite rooted) = init.all (Expr.definite rooted) := by
  obtain ⟨declared, -, h⟩ := bind_eq_ok.mp h
  cases declared with
  | none =>
    cases init with
    | none => cases h
    | some init =>
      simp only [bind_eq_ok, needValue_eq_ok] at h
      obtain ⟨⟨ty, init'⟩, ⟨hresult, -⟩, h⟩ := h
      cases hnull : ty.same .null with
      | true =>
        simp only [hnull, if_true] at h
        cases h
      | false =>
        simp only [hnull, if_false, Bool.false_eq_true, pure_bind, if_eq_ok] at h
        obtain ⟨-, rfl⟩ := h
        exact definite_of_checkExpr rooted hresult
  | some declared =>
    cases init with
    | none =>
      simp only [pure_bind, if_eq_ok] at h
      obtain ⟨-, rfl⟩ := h
      rfl
    | some init =>
      simp only [bind_eq_ok, pure_bind, if_eq_ok] at h
      obtain ⟨_, hneed, -, rfl⟩ := h
      exact definite_of_need rooted hneed

theorem checkReturn_definite {value answer : Option Expr}
    (h : ctx.checkReturn value = .ok answer) :
    answer.all (Expr.definite rooted) = value.all (Expr.definite rooted) := by
  unfold checkReturn at h
  split at h
  case h_1 =>
    cases h
    rfl
  case h_2 => cases h
  case h_3 =>
    obtain ⟨_, -, h⟩ := bind_eq_ok.mp h
    cases h
  case h_4 =>
    obtain ⟨_, hneed, h⟩ := bind_eq_ok.mp h
    cases h
    exact definite_of_need rooted hneed

theorem checkReshape_definite {verb lower : String} {target : Expr} {path : Path}
    {answer : Expr × ClassId} (h : ctx.checkReshape verb lower target path = .ok answer) :
    answer.1.definite rooted = target.definite rooted := by
  simp only [checkReshape, bind_eq_ok, needValue_eq_ok] at h
  obtain ⟨_, ⟨hresult, -⟩, _, -, id, -, h⟩ := h
  split at h
  all_goals
    obtain ⟨_, -, h⟩ := bind_eq_ok.mp h
    cases h
    exact definite_of_checkExpr rooted hresult

end

mutual

theorem checkStmt_definite : ∀ {ctx : CheckContext} (stmt : Stmt) {answer : Stmt × CheckContext},
    ctx.checkStmt stmt = .ok answer → answer.1.definite rooted = stmt.definite rooted
  | _, .let .., _, h => by
    simp only [checkStmt, chargeTo_eq_ok, bind_eq_ok] at h
    obtain ⟨_, hlet, _, -, h⟩ := h
    cases h
    exact checkLet_definite rooted hlet
  | _, .assign .., _, h => by
    simp only [checkStmt, chargeTo_eq_ok, bind_eq_ok] at h
    obtain ⟨_, htarget, _, hneed, _, -, h⟩ := h
    cases h
    rw [Stmt.definite, Stmt.definite, checkTarget_definite rooted htarget,
      definite_of_need rooted hneed]
  | _, .compound .., _, h => by
    simp only [checkStmt, chargeTo_eq_ok, bind_eq_ok] at h
    obtain ⟨_, hcompound, h⟩ := h
    cases h
    exact checkCompound_definite rooted hcompound
  | _, .expr .., _, h => by
    simp only [checkStmt, chargeTo_eq_ok, bind_eq_ok] at h
    obtain ⟨_, hresult, h⟩ := h
    cases h
    exact definite_of_checkExpr rooted hresult
  | _, .if _ yes no _, _, h => by
    simp only [checkStmt, chargeTo_eq_ok, bind_eq_ok] at h
    obtain ⟨_, hcond, _, hyes, _, hno, h⟩ := h
    cases h
    rw [Stmt.definite, Stmt.definite, definite_of_need rooted hcond, checkBlock_definite yes hyes,
      checkBlock_definite no hno]
  | _, .while _ body _, _, h => by
    simp only [checkStmt, chargeTo_eq_ok, bind_eq_ok] at h
    obtain ⟨_, hcond, _, hbody, h⟩ := h
    cases h
    rw [Stmt.definite, Stmt.definite, definite_of_need rooted hcond, checkBlock_definite body hbody]
  | _, .for _ _ _ _ _ _ body _, _, h => by
    simp only [checkStmt, chargeTo_eq_ok, bind_eq_ok, needValue_eq_ok] at h
    obtain ⟨_, ⟨_, ⟨hresult, -⟩, _, -, _, -, _, -, _, -, hpure⟩, _, hbody, h⟩ := h
    cases hpure
    cases h
    rw [Stmt.definite, Stmt.definite, definite_of_checkExpr rooted hresult,
      checkBlock_definite body hbody]
  | _, .return .., _, h => by
    simp only [checkStmt, chargeTo_eq_ok, bind_eq_ok] at h
    obtain ⟨_, hreturn, h⟩ := h
    cases h
    exact checkReturn_definite rooted hreturn
  | _, .break _, _, h | _, .continue _, _, h => by
    simp only [checkStmt, chargeTo_eq_ok, if_eq_ok] at h
    obtain ⟨-, rfl⟩ := h
    rfl
  | _, .extend .., _, h | _, .retract .., _, h => by
    simp only [checkStmt, chargeTo_eq_ok, bind_eq_ok] at h
    obtain ⟨_, hreshape, h⟩ := h
    cases h
    exact checkReshape_definite rooted hreshape
  | _, .enforce .., _, h => by
    simp only [checkStmt, chargeTo_eq_ok, bind_eq_ok] at h
    obtain ⟨_, hneed, _, -, h⟩ := h
    cases h
    exact definite_of_need rooted hneed

theorem checkBlock_definite : ∀ {ctx : CheckContext} (body : List Stmt) {answer : List Stmt},
    ctx.checkBlock body = .ok answer →
    Stmt.allDefinite rooted answer = Stmt.allDefinite rooted body
  | _, [], _, h => by
    cases h
    rfl
  | _, stmt :: rest, _, h => by
    simp only [checkBlock, bind_eq_ok] at h
    obtain ⟨_, hstmt, _, hrest, h⟩ := h
    cases h
    rw [Stmt.allDefinite, Stmt.allDefinite, checkStmt_definite stmt hstmt,
      checkBlock_definite rest hrest]

end

theorem checkMethod_definite {cls : ClassId} {sig : MethodSig} {decl answer : MethodDecl}
    (h : ctx.checkMethod cls sig decl = .ok answer) :
    Stmt.allDefinite rooted answer.body = Stmt.allDefinite rooted decl.body := by
  simp only [checkMethod, bind_eq_ok, chargeTo_eq_ok] at h
  obtain ⟨_, -, _, hbody, h⟩ := h
  cases h
  exact checkBlock_definite decl.body hbody

theorem checkInitializer_definite {cls : ClassId} {ty : Ty} {decl answer : FieldDecl}
    (h : ctx.checkInitializer cls ty decl = .ok answer) :
    answer.init.all (Expr.definite rooted) = decl.init.all (Expr.definite rooted) := by
  simp only [checkInitializer, bind_eq_ok] at h
  obtain ⟨init, hinit, h⟩ := h
  cases h
  cases hdecl : decl.init with
  | none =>
    rw [hdecl] at hinit
    cases hinit
    rfl
  | some written =>
    rw [hdecl] at hinit
    obtain ⟨_, hneed, hinit⟩ := bind_eq_ok.mp hinit
    cases hinit
    exact definite_of_need rooted (chargeTo_eq_ok.mp hneed)

end CheckContext

end Attire
