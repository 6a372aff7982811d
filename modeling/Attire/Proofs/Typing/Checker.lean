import Attire.Proofs.Results
import Attire.Proofs.Typing.Rules

namespace Attire

/-! What the checker accepts obeys the typing rules. -/

theorem chargeTo_eq_ok {α : Type} {span : Span} {result : Except CheckCause α} {answer : α} :
    chargeTo span result = .ok answer ↔ result = .ok answer :=
  mapError_eq_ok

theorem needValue_eq_ok {result : Except CheckCause Checked} {answer : Checked} :
    needValue result = .ok answer ↔ result = .ok answer ∧ answer.1.isValue := by
  obtain ⟨ty, expr⟩ := answer
  simp only [needValue, bind_eq_ok, if_eq_ok, Prod.mk.injEq]
  constructor
  · rintro ⟨⟨_, _⟩, hresult, hvalue, rfl, rfl⟩
    exact ⟨hresult, hvalue⟩
  · rintro ⟨hresult, hvalue⟩
    exact ⟨_, hresult, hvalue, rfl, rfl⟩

namespace CheckContext

variable {ctx : CheckContext}

theorem need_eq_ok {expected : Ty} {result : Except CheckCause Checked} {expr : Expr} :
    ctx.need expected result = .ok expr ↔
      ∃ ty, result = .ok (ty, expr) ∧ ty.isValue ∧ ctx.accepts expected ty := by
  simp only [need, bind_eq_ok, needValue_eq_ok, if_eq_ok]
  constructor
  · rintro ⟨⟨ty, _⟩, ⟨hresult, hvalue⟩, haccepts, rfl⟩
    exact ⟨ty, hresult, hvalue, haccepts⟩
  · rintro ⟨ty, hresult, hvalue, haccepts⟩
    exact ⟨_, ⟨hresult, hvalue⟩, haccepts, rfl⟩

theorem objectClass_eq_ok {ty : Ty} {member : String} {cls : ClassId} :
    ctx.objectClass ty member = .ok cls ↔ ty = .object cls := by
  cases ty <;> simp [objectClass]

theorem lookupMethod_eq_ok {cls : ClassId} {name : String} {sig : MethodSig} :
    ctx.lookupMethod cls name = .ok sig ↔ ∃ found, ctx.classes.get? cls = some found ∧
      found.methods.get? name = some (.member sig) := by
  rw [← Option.bind_eq_some_iff, lookupMethod]
  cases (ctx.classes.get? cls).bind fun found => found.methods.get? name with
  | none => simp
  | some entry => cases entry <;> simp

theorem lookupField_eq_ok {cls : ClassId} {name : String} {info : FieldInfo} :
    ctx.lookupField cls name = .ok info ↔ ∃ found, ctx.classes.get? cls = some found ∧
      found.fields.get? name = some (.member info) := by
  rw [← Option.bind_eq_some_iff, lookupField]
  cases (ctx.classes.get? cls).bind fun found => found.fields.get? name with
  | none =>
    dsimp only
    split <;> simp
  | some entry => cases entry <;> simp

theorem lookupSuper_eq_ok {parents : List ClassId} {parent : ClassId} {name : String}
    {sig : MethodSig} (h : ctx.lookupSuper name parents = .ok (parent, sig)) :
    parent ∈ parents ∧ ctx.lookupMethod parent name = .ok sig := by
  induction parents with
  | nil => cases h
  | cons first rest ih =>
    rw [lookupSuper] at h
    split at h
    case h_1 hget =>
      cases h
      exact ⟨by simp, lookupMethod_eq_ok.mpr (Option.bind_eq_some_iff.mp hget)⟩
    case h_2 => cases h
    case h_3 =>
      obtain ⟨hmem, hlookup⟩ := ih h
      exact ⟨List.mem_cons_of_mem _ hmem, hlookup⟩

theorem require_eq_ok {requirement : Requirement} {action : String} {done : Unit} :
    ctx.require requirement action = .ok done ↔ ctx.effects.allows requirement := by
  unfold require
  split <;> simp_all

theorem countArgs_eq_ok {sig : MethodSig} {args : List Expr} {done : Unit} :
    countArgs sig args = .ok done ↔ args.length = sig.params.length := by
  unfold countArgs
  split <;> simp_all

-- Every form below unfolds these two: their equations are made here, once.
attribute [local simp] checkExpr checkForm

/-- Whatever the checker makes of the expression obeys the rules. -/
def Sound (ctx : CheckContext) (expr : Expr) : Prop :=
  ∀ answer : Checked, ctx.checkExpr expr = .ok answer → ctx.ExprTyped answer.2 answer.1

namespace Sound

theorem fits {expr answer : Expr} {expected : Ty} (hexpr : ctx.Sound expr)
    (h : ctx.need expected (ctx.checkExpr expr) = .ok answer) : ctx.Fits expected answer := by
  obtain ⟨ty, hresult, hvalue, haccepts⟩ := need_eq_ok.mp h
  exact ⟨ty, hexpr _ hresult, hvalue, haccepts⟩

theorem name {note : Option Note} {path : Path} : ctx.Sound (.mk note (.name path)) := by
  intro answer h
  rw [checkExpr, checkForm] at h
  split at h
  case h_1 ty hlocal =>
    cases h
    exact .var hlocal
  case h_2 hlocal =>
    obtain ⟨target, htarget, h⟩ := bind_eq_ok.mp h
    cases target with
    | fabric id =>
      cases h
      exact .fabric hlocal (mapError_eq_ok.mp htarget)
    | module id => cases h
    | cls id => cases h

theorem field {note : Option Note} {object : Expr} {name : String} (hobject : ctx.Sound object) :
    ctx.Sound (.mk note (.field object name)) := by
  intro answer h
  simp only [checkExpr, checkForm, bind_eq_ok, needValue_eq_ok, objectClass_eq_ok] at h
  obtain ⟨⟨ty, object'⟩, ⟨hresult, -⟩, cls, rfl, info, hinfo, h⟩ := h
  cases h
  exact .field (hobject _ hresult) hinfo

theorem index {note : Option Note} {object index : Expr} (hobject : ctx.Sound object)
    (hindex : ctx.Sound index) : ctx.Sound (.mk note (.index object index)) := by
  intro answer h
  simp only [checkExpr, checkForm, bind_eq_ok, needValue_eq_ok] at h
  obtain ⟨⟨ty, object'⟩, ⟨hresult, -⟩, h⟩ := h
  have htyped := hobject _ hresult
  cases ty with
  | array element =>
    obtain ⟨index', hneed, h⟩ := bind_eq_ok.mp h
    cases h
    obtain ⟨indexTy, hfits, hvalue, haccepts⟩ := hindex.fits hneed
    exact .indexArray htyped hfits hvalue haccepts
  | text =>
    obtain ⟨index', hneed, h⟩ := bind_eq_ok.mp h
    cases h
    obtain ⟨indexTy, hfits, hvalue, haccepts⟩ := hindex.fits hneed
    exact .indexText htyped hfits hvalue haccepts
  | map key value =>
    obtain ⟨index', hneed, h⟩ := bind_eq_ok.mp h
    cases h
    obtain ⟨indexTy, hfits, hvalue, haccepts⟩ := hindex.fits hneed
    exact .indexMap htyped hfits hvalue haccepts
  | tuple elements =>
    dsimp only at h
    split at h
    case h_1 position hposition =>
      obtain ⟨⟨indexTy, index'⟩, hresult', h⟩ := bind_eq_ok.mp h
      cases h
      have hlt : position < elements.length := by
        unfold tuplePosition? at hposition
        split at hposition
        · simpa using (Option.filter_eq_some_iff.mp hposition).2
        · cases hposition
      refine .indexTuple htyped (hindex _ hresult') ?_
      simp [List.getD_eq_getElem?_getD, List.getElem?_eq_getElem hlt]
    case h_2 => cases h
  | _ => cases h

theorem new {note : Option Note} {written : TypeExpr} : ctx.Sound (.mk note (.new written)) := by
  intro answer h
  simp only [checkExpr, checkForm, bind_eq_ok] at h
  obtain ⟨ty, hty, h⟩ := h
  cases ty with
  | object cls =>
    cases h
    exact .newObject hty
  | array element =>
    cases h
    exact .newContainer hty rfl
  | map key value =>
    cases h
    exact .newContainer hty rfl
  | set element =>
    cases h
    exact .newContainer hty rfl
  | _ => cases h

theorem binary {note : Option Note} {op : BinaryOp} {left right : Expr} (hleft : ctx.Sound left)
    (hright : ctx.Sound right) : ctx.Sound (.mk note (.binary op left right)) := by
  intro answer h
  simp only [checkExpr, checkForm, bind_eq_ok, needValue_eq_ok] at h
  obtain ⟨⟨l, left'⟩, ⟨hl, hlvalue⟩, ⟨r, right'⟩, ⟨hr, hrvalue⟩, ty, hty, h⟩ := h
  cases h
  exact .binary (hleft _ hl) hlvalue (hright _ hr) hrvalue hty

theorem unary {note : Option Note} {op : UnaryOp} {operand : Expr}
    (hoperand : ctx.Sound operand) : ctx.Sound (.mk note (.unary op operand)) := by
  intro answer h
  simp only [checkExpr, checkForm, bind_eq_ok] at h
  obtain ⟨operand', hneed, h⟩ := h
  obtain ⟨ty, hty, hvalue, haccepts⟩ := hoperand.fits hneed
  cases op with
  | neg =>
    cases h
    exact .neg hty hvalue haccepts
  | not =>
    cases h
    exact .not hty hvalue haccepts

theorem cast {note : Option Note} {value : Expr} {written : TypeExpr} (hvalue : ctx.Sound value) :
    ctx.Sound (.mk note (.cast value written)) := by
  intro answer h
  simp only [checkExpr, checkForm, bind_eq_ok, needValue_eq_ok, if_eq_ok] at h
  obtain ⟨⟨source, value'⟩, ⟨hsource, hisValue⟩, target, htarget, hcastable, rfl⟩ := h
  exact .cast (hvalue _ hsource) hisValue htarget hcastable

theorem clone {note : Option Note} {value : Expr} (hvalue : ctx.Sound value) :
    ctx.Sound (.mk note (.clone value)) := by
  intro answer h
  simp only [checkExpr, checkForm, bind_eq_ok, needValue_eq_ok, if_eq_ok] at h
  obtain ⟨⟨ty, value'⟩, ⟨hty, -⟩, hclonable, rfl⟩ := h
  exact .clone (hvalue _ hty) hclonable

theorem len {note : Option Note} {value : Expr} (hvalue : ctx.Sound value) :
    ctx.Sound (.mk note (.len value)) := by
  intro answer h
  simp only [checkExpr, checkForm, bind_eq_ok, needValue_eq_ok] at h
  obtain ⟨⟨ty, value'⟩, ⟨hty, -⟩, h⟩ := h
  cases ty <;> cases h <;> exact .len (hvalue _ hty)

theorem has {note : Option Note} {collection key : Expr} (hcollection : ctx.Sound collection)
    (hkey : ctx.Sound key) : ctx.Sound (.mk note (.has collection key)) := by
  intro answer h
  simp only [checkExpr, checkForm, bind_eq_ok, needValue_eq_ok] at h
  obtain ⟨⟨ty, collection'⟩, ⟨hty, -⟩, h⟩ := h
  cases ty with
  | map keyTy valueTy =>
    obtain ⟨key', hneed, h⟩ := bind_eq_ok.mp h
    cases h
    obtain ⟨ty, hfits, hvalue, haccepts⟩ := hkey.fits hneed
    exact .hasKey (hcollection _ hty) hfits hvalue haccepts
  | set keyTy =>
    obtain ⟨key', hneed, h⟩ := bind_eq_ok.mp h
    cases h
    obtain ⟨ty, hfits, hvalue, haccepts⟩ := hkey.fits hneed
    exact .hasItem (hcollection _ hty) hfits hvalue haccepts
  | _ => cases h

theorem is {note : Option Note} {value : Expr} {path : Path} (hvalue : ctx.Sound value) :
    ctx.Sound (.mk note (.is value path)) := by
  intro answer h
  simp only [checkExpr, checkForm, bind_eq_ok, needValue_eq_ok, objectClass_eq_ok] at h
  obtain ⟨⟨ty, value'⟩, ⟨hty, -⟩, cls, rfl, target, htarget, h⟩ := h
  cases h
  exact .is (hvalue _ hty) htarget

end Sound

mutual

theorem sound : ∀ (expr : Expr), ctx.Sound expr
  | .mk _ (.num _) => by rintro _ ⟨⟩; exact .num
  | .mk _ (.text _) => by rintro _ ⟨⟩; exact .text
  | .mk _ (.bool _) => by rintro _ ⟨⟩; exact .bool
  | .mk _ .null => by rintro _ ⟨⟩; exact .null
  | .mk _ .this => by rintro _ ⟨⟩; exact .this
  | .mk _ .caller => by rintro _ ⟨⟩; exact .caller
  | .mk _ .random => by rintro _ ⟨⟩; exact .random
  | .mk _ (.name _) => .name
  | .mk _ (.field object _) => .field (sound object)
  | .mk _ (.index object index) => .index (sound object) (sound index)
  | .mk _ (.call object _ args) => by
    intro answer h
    simp only [checkExpr, checkForm, bind_eq_ok, needValue_eq_ok, objectClass_eq_ok,
      require_eq_ok] at h
    obtain ⟨⟨ty, object'⟩, ⟨hty, -⟩, cls, rfl, sig, hsig, _, hallows, _, hcount, args', hargs, h⟩ := h
    cases h
    exact .call (sound object _ hty) hsig hallows
      (soundArgs args (countArgs_eq_ok.mp hcount) hargs)
  | .mk _ (.superCall _ args) => by
    intro answer h
    simp only [checkExpr, checkForm, bind_eq_ok, require_eq_ok] at h
    obtain ⟨⟨parent, sig⟩, hsuper, _, hallows, _, hcount, args', hargs, h⟩ := h
    cases h
    exact .superCall hsuper hallows (soundArgs args (countArgs_eq_ok.mp hcount) hargs)
  | .mk _ (.new _) => .new
  | .mk _ (.binary _ left right) => .binary (sound left) (sound right)
  | .mk _ (.unary _ operand) => .unary (sound operand)
  | .mk _ (.array elements) => by
    intro answer h
    simp only [checkExpr, checkForm, bind_eq_ok] at h
    obtain ⟨⟨types, elements'⟩, hvalues, common, hcommon, h⟩ := h
    cases h
    exact .array (soundValues elements hvalues) hcommon
  | .mk _ (.tuple elements) => by
    intro answer h
    simp only [checkExpr, checkForm, bind_eq_ok] at h
    obtain ⟨⟨types, elements'⟩, hvalues, h⟩ := h
    cases h
    exact .tuple (soundValues elements hvalues)
  | .mk _ (.cast value _) => .cast (sound value)
  | .mk _ (.clone value) => .clone (sound value)
  | .mk _ (.len value) => .len (sound value)
  | .mk _ (.has collection key) => .has (sound collection) (sound key)
  | .mk _ (.is value _) => .is (sound value)
  | .mk _ (.suggest steps) => by
    intro answer h
    simp only [checkExpr, checkForm, bind_eq_ok] at h
    obtain ⟨steps', hsteps, h⟩ := h
    cases h
    exact .suggest (soundSteps steps hsteps)

theorem soundArgs : ∀ (args : List Expr) {params : List Ty} {answer : List Expr},
    args.length = params.length → ctx.checkArgs params args = .ok answer →
    ctx.ArgsTyped params answer
  | [], [], _, _, h => by
    rw [checkArgs] at h
    · cases h
      exact .nil
    · nofun
  | arg :: args, param :: params, _, hlength, h => by
    simp only [checkArgs, bind_eq_ok] at h
    obtain ⟨arg', hneed, args', hargs, h⟩ := h
    cases h
    obtain ⟨ty, hty, hvalue, haccepts⟩ := (sound arg).fits hneed
    exact .cons hty hvalue haccepts (soundArgs args (by simpa using hlength) hargs)

theorem soundValues : ∀ (elements : List Expr) {answer : List Ty × List Expr},
    ctx.checkValues elements = .ok answer → ctx.ValuesTyped answer.1 answer.2
  | [], _, h => by
    cases h
    exact .nil
  | element :: rest, _, h => by
    simp only [checkValues, bind_eq_ok, needValue_eq_ok] at h
    obtain ⟨⟨ty, element'⟩, ⟨hty, hvalue⟩, ⟨types, elements'⟩, hrest, h⟩ := h
    cases h
    exact .cons (sound element _ hty) hvalue (soundValues rest hrest)

theorem soundStep : ∀ (step : SuggestStep) {answer : SuggestStep},
    ctx.checkStep step = .ok answer → ctx.StepTyped answer
  | .extend _ target _, _, h => by
    simp only [checkStep, bind_eq_ok, needValue_eq_ok, objectClass_eq_ok] at h
    obtain ⟨⟨ty, target'⟩, ⟨hty, -⟩, cls, rfl, id, hid, h⟩ := h
    cases h
    exact .extend (sound target _ hty) hid
  | .retract _ target _, _, h => by
    simp only [checkStep, bind_eq_ok, needValue_eq_ok, objectClass_eq_ok] at h
    obtain ⟨⟨ty, target'⟩, ⟨hty, -⟩, cls, rfl, id, hid, h⟩ := h
    cases h
    exact .retract (sound target _ hty) hid
  | .call _ target _ args, _, h => by
    simp only [checkStep, bind_eq_ok, needValue_eq_ok, objectClass_eq_ok] at h
    obtain ⟨⟨ty, target'⟩, ⟨hty, -⟩, cls, rfl, sig, hsig, _, hcount, args', hargs, h⟩ := h
    cases h
    exact .call (sound target _ hty) hsig (soundArgs args (countArgs_eq_ok.mp hcount) hargs)

theorem soundSteps : ∀ (steps : List SuggestStep) {answer : List SuggestStep},
    ctx.checkSteps steps = .ok answer → ctx.StepsTyped answer
  | [], _, h => by
    cases h
    exact .nil
  | step :: rest, _, h => by
    simp only [checkSteps, bind_eq_ok] at h
    obtain ⟨step', hstep, rest', hrest, h⟩ := h
    cases h
    exact .cons (soundStep step hstep) (soundSteps rest hrest)

end

theorem fits_of_need {expected : Ty} {expr answer : Expr}
    (h : ctx.need expected (ctx.checkExpr expr) = .ok answer) : ctx.Fits expected answer :=
  (sound expr).fits h

theorem checkTarget_sound {target : Expr} {answer : Checked}
    (h : ctx.checkTarget target = .ok answer) :
    ctx.ExprTyped answer.2 answer.1 ∧ Assignable answer.2 := by
  obtain ⟨note, form⟩ := target
  cases form with
  | name path =>
    refine ⟨sound _ _ h, ?_⟩
    replace h : ctx.checkExpr (.mk note (.name path)) = .ok answer := h
    rw [checkExpr, checkForm] at h
    split at h
    · cases h
      trivial
    · obtain ⟨target, -, h⟩ := bind_eq_ok.mp h
      cases target <;> cases h
      trivial
  | field object name =>
    refine ⟨sound _ _ h, ?_⟩
    replace h : ctx.checkExpr (.mk note (.field object name)) = .ok answer := h
    simp only [checkExpr, checkForm, bind_eq_ok] at h
    obtain ⟨_, -, _, -, _, -, h⟩ := h
    cases h
    trivial
  | index object index =>
    obtain ⟨⟨ty, target⟩, hresult, h⟩ := bind_eq_ok.mp h
    dsimp only at h
    split at h
    case h_2 => cases h
    case h_1 object' index' hform =>
      split at h
      case h_3 => cases h
      case h_1 element harray =>
        cases h
        refine ⟨sound _ _ hresult, ?_⟩
        simp only [Assignable, hform]
        exact .inl ⟨element, harray⟩
      case h_2 key value hmap =>
        cases h
        refine ⟨sound _ _ hresult, ?_⟩
        simp only [Assignable, hform]
        exact .inr ⟨key, value, hmap⟩
  | _ => cases h

theorem checkOperand_sound {op : CompoundOp} {targetTy : Ty} {value : Expr}
    {answer : Expr × Bool} (h : ctx.checkOperand op targetTy value = .ok answer) :
    ctx.OperandTyped op targetTy answer.1 answer.2 := by
  unfold checkOperand at h
  dsimp only at h
  split at h
  · obtain ⟨value', hneed, h⟩ := bind_eq_ok.mp h
    cases h
    exact .addToArray (fits_of_need hneed)
  · obtain ⟨value', hneed, h⟩ := bind_eq_ok.mp h
    cases h
    exact .addToSet (fits_of_need hneed)
  · obtain ⟨value', hneed, h⟩ := bind_eq_ok.mp h
    cases h
    exact .removeFromMap (fits_of_need hneed)
  · obtain ⟨value', hneed, h⟩ := bind_eq_ok.mp h
    cases h
    exact .removeFromSet (fits_of_need hneed)
  · obtain ⟨value', hneed, h⟩ := bind_eq_ok.mp h
    cases h
    exact .number (fits_of_need hneed)
  · simp only [bind_eq_ok, needValue_eq_ok, if_eq_ok] at h
    obtain ⟨⟨ty, value'⟩, ⟨hresult, hvalue⟩, -, rfl⟩ := h
    exact .text (sound _ _ hresult) hvalue
  · obtain ⟨value', hneed, h⟩ := bind_eq_ok.mp h
    cases h
    exact .suggestion (fits_of_need hneed)
  · cases h

/-- A call yields no location, so only collections can be changed through one. -/
theorem checkWrite_call {note : Option Note} {object : Expr} {method verb : String}
    {args : List Expr} {answer : Checked}
    (h : ctx.checkExpr (.mk note (.call object method args)) = .ok answer) :
    ctx.checkWrite answer.2 verb = .error .notAssignable := by
  simp only [checkExpr, checkForm, bind_eq_ok] at h
  obtain ⟨_, -, _, -, _, -, _, -, _, -, _, -, h⟩ := h
  cases h
  rfl

theorem checkCompound_sound {op : CompoundOp} {target value : Expr} {answer : Expr × Expr}
    {span : Span} (h : ctx.checkCompound op target value = .ok answer) :
    StmtTyped ctx (.compound op answer.1 answer.2 span) ctx := by
  obtain ⟨⟨ty, target'⟩, htarget, h⟩ := bind_eq_ok.mp h
  obtain ⟨⟨value', inPlace⟩, hoperand, h⟩ := bind_eq_ok.mp h
  replace hoperand := checkOperand_sound hoperand
  cases inPlace with
  | true =>
    obtain ⟨_, hwrite, h⟩ := bind_eq_ok.mp h
    cases h
    refine .change ?_ hoperand hwrite
    unfold checkCompoundTarget at htarget
    split at htarget
    · exact sound _ _ htarget
    · exact (checkTarget_sound htarget).1
  | false =>
    obtain ⟨_, hwrite, h⟩ := bind_eq_ok.mp h
    cases h
    obtain ⟨note, form⟩ := target
    unfold checkCompoundTarget at htarget
    split at htarget
    case h_1 object method args hform =>
      subst hform
      rw [checkWrite_call htarget] at hwrite
      cases hwrite
    case h_2 =>
      obtain ⟨htyped, hassignable⟩ := checkTarget_sound htarget
      exact .update htyped hassignable hoperand hwrite

theorem checkLet_sound {name : String} {ty : Option TypeExpr} {init : Option Expr}
    {answer : Ty × Option Expr} {after : CheckContext} {span : Span}
    (h : ctx.checkLet name ty init = .ok answer) (hdeclare : ctx.declare name answer.1 = .ok after) :
    StmtTyped ctx (.let (some answer.1) name ty answer.2 span) after := by
  obtain ⟨declared, hdeclared, h⟩ := bind_eq_ok.mp h
  cases ty with
  | none =>
    cases hdeclared
    cases init with
    | none => cases h
    | some init =>
      simp only [bind_eq_ok, needValue_eq_ok] at h
      obtain ⟨⟨ty, init'⟩, ⟨hresult, hvalue⟩, h⟩ := h
      cases hnull : ty.same .null with
      | true =>
        simp only [hnull, if_true] at h
        cases h
      | false =>
        simp only [hnull, if_false, Bool.false_eq_true, pure_bind, if_eq_ok] at h
        obtain ⟨-, rfl⟩ := h
        exact .letInferred (sound _ _ hresult) hvalue hnull hdeclare
  | some written =>
    obtain ⟨ty, hresolve, hdeclared⟩ := bind_eq_ok.mp hdeclared
    cases hdeclared
    cases init with
    | none =>
      simp only [pure_bind, if_eq_ok] at h
      obtain ⟨hvalue, rfl⟩ := h
      exact .letDefault hresolve hvalue hdeclare
    | some init =>
      simp only [bind_eq_ok, pure_bind, if_eq_ok] at h
      obtain ⟨init', hneed, hvalue, rfl⟩ := h
      exact .letDeclared hresolve (fits_of_need hneed) hvalue hdeclare

theorem checkReturn_sound {value : Option Expr} {answer : Option Expr} {span : Span}
    (h : ctx.checkReturn value = .ok answer) : StmtTyped ctx (.return answer span) ctx := by
  unfold checkReturn at h
  split at h
  case h_1 hret =>
    cases h
    exact .returnNothing hret
  case h_2 => cases h
  case h_3 =>
    obtain ⟨_, -, h⟩ := bind_eq_ok.mp h
    cases h
  case h_4 =>
    obtain ⟨value', hneed, h⟩ := bind_eq_ok.mp h
    cases h
    exact .returnValue (fits_of_need hneed)

theorem checkReshape_sound {verb lower : String} {target : Expr} {path : Path}
    {answer : Expr × ClassId} (h : ctx.checkReshape verb lower target path = .ok answer) :
    (∃ cls, ctx.ExprTyped answer.1 (.object cls)) ∧ ctx.resolveClass path = .ok answer.2 ∧
      (ctx.effects.mutatingThis ∨ ctx.effects.mutating) := by
  simp only [checkReshape, bind_eq_ok, needValue_eq_ok, objectClass_eq_ok] at h
  obtain ⟨⟨ty, target'⟩, ⟨hresult, -⟩, cls, rfl, id, hid, h⟩ := h
  split at h
  all_goals
    obtain ⟨_, hrequire, h⟩ := bind_eq_ok.mp h
    cases h
    refine ⟨⟨cls, sound _ _ hresult⟩, hid, ?_⟩
  · exact .inl (require_eq_ok.mp hrequire)
  · exact .inr (require_eq_ok.mp hrequire)

mutual

theorem checkStmt_sound : ∀ {ctx : CheckContext} (stmt : Stmt) {answer : Stmt × CheckContext},
    ctx.checkStmt stmt = .ok answer → StmtTyped ctx answer.1 answer.2
  | ctx, .let _ name ty init span, _, h => by
    simp only [checkStmt, chargeTo_eq_ok, bind_eq_ok] at h
    obtain ⟨⟨varTy, init'⟩, hlet, after, hdeclare, h⟩ := h
    cases h
    exact checkLet_sound hlet hdeclare
  | ctx, .assign target value span, _, h => by
    simp only [checkStmt, chargeTo_eq_ok, bind_eq_ok] at h
    obtain ⟨⟨ty, target'⟩, htarget, value', hneed, _, hwrite, h⟩ := h
    cases h
    obtain ⟨htyped, hassignable⟩ := checkTarget_sound htarget
    exact .assign htyped hassignable (fits_of_need hneed) hwrite
  | ctx, .compound op target value span, _, h => by
    simp only [checkStmt, chargeTo_eq_ok, bind_eq_ok] at h
    obtain ⟨⟨target', value'⟩, hcompound, h⟩ := h
    cases h
    exact checkCompound_sound hcompound
  | ctx, .expr expr span, _, h => by
    simp only [checkStmt, chargeTo_eq_ok, bind_eq_ok] at h
    obtain ⟨⟨ty, expr'⟩, hresult, h⟩ := h
    cases h
    exact .expr (sound _ _ hresult)
  | ctx, .if cond yes no span, _, h => by
    simp only [checkStmt, chargeTo_eq_ok, bind_eq_ok] at h
    obtain ⟨cond', hcond, yes', hyes, no', hno, h⟩ := h
    cases h
    exact .branch (fits_of_need hcond) (checkBlock_sound yes hyes) (checkBlock_sound no hno)
  | ctx, .while cond body span, _, h => by
    simp only [checkStmt, chargeTo_eq_ok, bind_eq_ok] at h
    obtain ⟨cond', hcond, body', hbody, h⟩ := h
    cases h
    exact .while (fits_of_need hcond) (checkBlock_sound body hbody)
  | ctx, .for _ key value keyTy valueTy iter body span, _, h => by
    simp only [checkStmt, chargeTo_eq_ok, bind_eq_ok, needValue_eq_ok] at h
    obtain ⟨_, ⟨⟨ty, iter'⟩, ⟨hresult, hvalue⟩, plan, hplan, _, -, _, -, locals, hlocals, hpure⟩,
      body', hbody, h⟩ := h
    cases hpure
    cases h
    exact .for (sound _ _ hresult) hvalue hplan hlocals (checkBlock_sound body hbody)
  | ctx, .return value span, _, h => by
    simp only [checkStmt, chargeTo_eq_ok, bind_eq_ok] at h
    obtain ⟨value', hreturn, h⟩ := h
    cases h
    exact checkReturn_sound hreturn
  | ctx, .break span, _, h => by
    simp only [checkStmt, chargeTo_eq_ok, if_eq_ok] at h
    obtain ⟨hloop, rfl⟩ := h
    exact .break hloop
  | ctx, .continue span, _, h => by
    simp only [checkStmt, chargeTo_eq_ok, if_eq_ok] at h
    obtain ⟨hloop, rfl⟩ := h
    exact .continue hloop
  | ctx, .extend _ target path span, _, h => by
    simp only [checkStmt, chargeTo_eq_ok, bind_eq_ok] at h
    obtain ⟨⟨target', id⟩, hreshape, h⟩ := h
    cases h
    obtain ⟨⟨cls, htyped⟩, hid, hmutates⟩ := checkReshape_sound hreshape
    exact .extend htyped hid hmutates
  | ctx, .retract _ target path span, _, h => by
    simp only [checkStmt, chargeTo_eq_ok, bind_eq_ok] at h
    obtain ⟨⟨target', id⟩, hreshape, h⟩ := h
    cases h
    obtain ⟨⟨cls, htyped⟩, hid, hmutates⟩ := checkReshape_sound hreshape
    exact .retract htyped hid hmutates
  | ctx, .enforce suggestion span, _, h => by
    simp only [checkStmt, chargeTo_eq_ok, bind_eq_ok, require_eq_ok] at h
    obtain ⟨suggestion', hneed, _, hrequire, h⟩ := h
    cases h
    exact .enforce (fits_of_need hneed) hrequire

theorem checkBlock_sound : ∀ {ctx : CheckContext} (body : List Stmt) {answer : List Stmt},
    ctx.checkBlock body = .ok answer → BlockTyped ctx answer
  | ctx, [], _, h => by
    cases h
    exact .nil
  | ctx, stmt :: rest, _, h => by
    simp only [checkBlock, bind_eq_ok] at h
    obtain ⟨⟨stmt', next⟩, hstmt, rest', hrest, h⟩ := h
    cases h
    exact .cons (checkStmt_sound stmt hstmt) (checkBlock_sound rest hrest)

end

/-- The context in which the body of a method is checked. -/
def within (ctx : CheckContext) (cls : ClassId) (sig : MethodSig) (params : Table String Ty) :
    CheckContext :=
  { ctx with
    cls
    effects := Effects.ofSig sig
    ret := sig.ret
    scopes := [params]
    inLoop := false }

theorem checkMethod_sound {cls : ClassId} {sig : MethodSig} {decl answer : MethodDecl}
    (h : ctx.checkMethod cls sig decl = .ok answer) :
    ∃ params body, parameters decl sig = .ok params ∧ answer = { decl with body } ∧
      BlockTyped (ctx.within cls sig params) body := by
  simp only [checkMethod, bind_eq_ok, chargeTo_eq_ok] at h
  obtain ⟨params, hparams, body, hbody, h⟩ := h
  cases h
  exact ⟨params, body, hparams, rfl, checkBlock_sound _ hbody⟩

/-- The context in which the initializer of a field is checked. -/
def initializing (ctx : CheckContext) (cls : ClassId) (ty : Ty) : CheckContext :=
  { ctx with cls, effects := {}, ret := ty, scopes := [∅], inLoop := false }

theorem checkInitializer_sound {cls : ClassId} {ty : Ty} {decl answer : FieldDecl}
    (h : ctx.checkInitializer cls ty decl = .ok answer) :
    ∃ init, answer = { decl with init } ∧
      ∀ expr ∈ init, (ctx.initializing cls ty).Fits ty expr := by
  simp only [checkInitializer, bind_eq_ok] at h
  obtain ⟨init, hinit, h⟩ := h
  cases h
  refine ⟨init, rfl, ?_⟩
  rintro expr rfl
  cases hdecl : decl.init with
  | none =>
    rw [hdecl] at hinit
    cases hinit
  | some written =>
    rw [hdecl] at hinit
    obtain ⟨expr', hneed, hinit⟩ := bind_eq_ok.mp hinit
    cases hinit
    exact fits_of_need (chargeTo_eq_ok.mp hneed)

end CheckContext

end Attire
