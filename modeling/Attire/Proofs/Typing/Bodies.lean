import Attire.Import.Body
import Attire.Proofs.Typing.Judging

namespace Attire

/-! The checker judges bodies alike, whatever the numbers of the classes and modules are. -/

variable {same : ClassId → ClassId → Prop} {alike : ModuleId → ModuleId → Prop}

theorem Agree.chargeTo {α β : Type} {related : α → β → Prop} {result : Except CheckCause α}
    {result' : Except CheckCause β} (h : Agree related result result') (span : Span) :
    Agree related (chargeTo span result) (chargeTo span result') :=
  h.mapError

structure LoopPlan.Matches (same : ClassId → ClassId → Prop) (plan plan' : LoopPlan) : Prop where
  first : plan.first.Matches same plan'.first
  second : Option.Rel (Ty.Matches same) plan.second plan'.second

namespace CheckContext

theorem loopVariables_agree {plan plan' : LoopPlan} (hplan : plan.Matches same plan')
    (key : String) (value : Option String) :
    Agree (Table.Pairs (Ty.Matches same)) (loopVariables plan key value)
      (loopVariables plan' key value) := by
  have hfirst : Table.Pairs (Ty.Matches same) ((∅ : Table String Ty).insert key plan.first)
      ((∅ : Table String Ty).insert key plan'.first) :=
    Table.Matches.empty.insert Table.biUnique_eq rfl hplan.first
  unfold loopVariables
  cases value with
  | none => exact .ok hfirst
  | some name =>
    obtain ⟨hnone, hnone'⟩ | ⟨ty, ty', hsome, hsome', hty⟩ := rel_cases hplan.second
    · rw [hnone, hnone']
      exact .ok hfirst
    · rw [hsome, hsome']
      dsimp only
      split
      · exact .error _
      · exact .ok (hfirst.insert Table.biUnique_eq rfl hty)

theorem checkWrite_plain {ctx : CheckContext} {note : Option Note} {form : Form} {verb : String}
    (h : form.isPlain) : ctx.checkWrite (.mk note form) verb = .error .notAssignable := by
  cases form <;> first | rfl | cases h

namespace Matches

variable {ctx ctx' : CheckContext} (h : ctx.Matches same alike ctx')
include h

theorem enter {locals locals' : Table String Ty}
    (hlocals : Table.Pairs (Ty.Matches same) locals locals') :
    (ctx.enter locals).Matches same alike (ctx'.enter locals') :=
  { h with scopes := .cons hlocals h.scopes }

theorem enterLoop {locals locals' : Table String Ty}
    (hlocals : Table.Pairs (Ty.Matches same) locals locals') :
    Matches same alike { ctx.enter locals with inLoop := true }
      { ctx'.enter locals' with inLoop := true } :=
  { h.enter hlocals with inLoop := rfl }

theorem declare_agree (name : String) {ty ty' : Ty} (hty : ty.Matches same ty') :
    Agree (Matches same alike) (ctx.declare name ty) (ctx'.declare name ty') := by
  have hscopes := h.scopes
  unfold declare
  revert hscopes
  generalize hctx : ctx.scopes = scopes
  generalize hctx' : ctx'.scopes = scopes'
  rintro ⟨⟩
  case nil => exact .ok (h.enter (Table.Matches.empty.insert Table.biUnique_eq rfl hty))
  case cons hscope houter =>
    dsimp only
    rw [hscope.contains Table.biUnique_eq rfl]
    split
    · exact .error _
    · exact .ok { h with scopes := .cons (hscope.insert Table.biUnique_eq rfl hty) houter }

theorem loopPlan_agree {ty ty' : Ty} (hty : ty.Matches same ty') (two : Bool) :
    Agree (LoopPlan.Matches same) (ctx.loopPlan ty two) (ctx'.loopPlan ty' two) := by
  have hdescribe := h.describe_eq hty
  cases hty with
  | array helement =>
    cases two with
    | false => exact .ok ⟨helement, .none⟩
    | true => exact .ok ⟨.num, .some helement⟩
  | text =>
    cases two with
    | false => exact .ok ⟨.text, .none⟩
    | true => exact .ok ⟨.num, .some .text⟩
  | map hkey hvalue =>
    cases two with
    | false => exact .ok ⟨hkey, .none⟩
    | true => exact .ok ⟨hkey, .some hvalue⟩
  | set helement =>
    cases two with
    | false => exact .ok ⟨helement, .none⟩
    | true => exact .error _
  | _ =>
    simp only [loopPlan, hdescribe]
    exact .error _

theorem checkDeclared_agree (written : Option TypeExpr) {actual actual' : Option Ty}
    (hactual : Option.Rel (Ty.Matches same) actual actual') :
    Agree Eq (ctx.checkDeclared written actual) (ctx'.checkDeclared written actual') := by
  cases written with
  | none => exact .ok rfl
  | some written =>
    cases hactual with
    | none => exact .ok rfl
    | some hactual =>
      refine (h.resolveType_agree written).bind fun declared declared' hdeclared => ?_
      rw [hdeclared.same_eq h.classes.unique hactual, h.describe_eq hdeclared, h.describe_eq hactual]
      split
      · exact .ok rfl
      · exact .error _

theorem checkTarget_agree (target : Expr) :
    Agree (Checked.Matches same) (ctx.checkTarget target) (ctx'.checkTarget target) := by
  unfold checkTarget
  split
  · exact h.judges target
  · exact h.judges target
  · refine (h.judges target).bind ?_
    rintro ⟨ty, expr⟩ ⟨ty', expr'⟩ ⟨hty, hexpr⟩
    dsimp only at hexpr
    cases hexpr with
    | index hindexTy hobject =>
      dsimp only [Expr.form]
      obtain ⟨hnone, hnone'⟩ | ⟨objectTy, objectTy', hsome, hsome', hobjectTy⟩ :=
        rel_cases hobject.ty?
      · rw [hnone, hnone']
        exact .error _
      · rw [hsome, hsome']
        cases hobjectTy with
        | array | map => exact .ok ⟨hty, .index hindexTy hobject⟩
        | _ => exact .error _
    | plain _ hplain hplain' =>
      dsimp only [Expr.form]
      split
      case h_1 => cases hplain
      case h_2 =>
        split
        case h_1 => cases hplain'
        case h_2 => exact .error _
    | _ => exact .error _
  · exact .error _

theorem requireWrite_agree {place : Place} (primitive : Bool) (action : String) :
    Agree Eq (ctx.requireWrite place primitive action) (ctx'.requireWrite place primitive action) := by
  unfold requireWrite
  split
  · exact .error _
  · exact h.require_agree _ _

theorem checkWrite_agree {target target' : Expr} (htarget : target.Matches same target')
    (verb : String) : Agree Eq (ctx.checkWrite target verb) (ctx'.checkWrite target' verb) := by
  have hprimitive : target.ty?.any Ty.isPrimitive = target'.ty?.any Ty.isPrimitive := by
    obtain ⟨hnone, hnone'⟩ | ⟨ty, ty', hsome, hsome', hty⟩ := rel_cases htarget.ty?
    · rw [hnone, hnone']
    · rw [hsome, hsome']
      exact hty.isPrimitive_eq
  have hplace := h.placeOf_eq htarget
  cases htarget with
  | this => exact .error _
  | name hty hmeaning => 
    simp only [checkWrite, Expr.form, isSome_eq (h.localOfPath?_rel _), hplace]
    exact .of_eq rfl
  | field hty hobject =>
    simp only [checkWrite, Expr.form, hprimitive, hplace]
    exact h.requireWrite_agree _ _
  | index hty hobject =>
    simp only [checkWrite, Expr.form, hprimitive, h.placeOf_eq hobject]
    exact h.requireWrite_agree _ _
  | plain _ hplain hplain' => rw [checkWrite_plain hplain, checkWrite_plain hplain']; exact .error _

theorem checkCompoundTarget_agree (target : Expr) :
    Agree (Checked.Matches same) (ctx.checkCompoundTarget target)
      (ctx'.checkCompoundTarget target) := by
  unfold checkCompoundTarget
  split
  · exact h.judges target
  · exact h.checkTarget_agree target

theorem checkOperand_agree (op : CompoundOp) {ty ty' : Ty} (hty : ty.Matches same ty')
    (value : Expr) :
    Agree (fun operand operand' => operand.2 = operand'.2) (ctx.checkOperand op ty value)
      (ctx'.checkOperand op ty' value) := by
  have hdescribe := h.describe_eq hty
  have hneed : ∀ {expected expected' : Ty} (inPlace : Bool), expected.Matches same expected' →
      Agree (fun operand operand' => operand.2 = operand'.2)
        (do return (← ctx.need expected (ctx.checkExpr value), inPlace))
        (do return (← ctx'.need expected' (ctx'.checkExpr value), inPlace)) :=
    fun _ hexpected => (h.need_agree hexpected (h.judges value)).bind fun _ _ _ => .ok rfl
  have hother : Agree (fun operand operand' : Expr × Bool => operand.2 = operand'.2)
      (.error (CheckCause.invalidCompound op.symbol (ctx.describe ty)))
      (.error (.invalidCompound op.symbol (ctx'.describe ty'))) := by
    rw [hdescribe]
    exact .error _
  cases hty with
  | num => cases op <;> exact hneed false .num
  | array helement =>
    cases op with
    | add => exact hneed true helement
    | _ => exact hother
  | set helement =>
    cases op with
    | add | sub => exact hneed true helement
    | _ => exact hother
  | map hkey hvalue =>
    cases op with
    | sub => exact hneed true hkey
    | _ => exact hother
  | suggestion =>
    cases op with
    | add => exact hneed false .suggestion
    | _ => exact hother
  | text =>
    cases op with
    | add =>
      refine (needValue_agree (h.judges value)).bind ?_
      rintro ⟨ty, value⟩ ⟨ty', value'⟩ ⟨hty, hvalue⟩
      dsimp only at hty ⊢
      rw [h.castable_eq hty .text, h.mismatch_eq .text hty]
      split
      · exact .ok rfl
      · exact .error _
    | _ => exact hother
  | _ => cases op <;> exact hother

theorem checkCompound_agree (op : CompoundOp) (target value : Expr) :
    Agree (fun _ _ => True) (ctx.checkCompound op target value)
      (ctx'.checkCompound op target value) := by
  refine (h.checkCompoundTarget_agree target).bind ?_
  rintro ⟨ty, target⟩ ⟨ty', target'⟩ ⟨hty, htarget⟩
  refine (h.checkOperand_agree op hty value).bind ?_
  rintro ⟨operand, inPlace⟩ ⟨operand', inPlace'⟩ hinPlace
  dsimp only at htarget hinPlace ⊢
  rw [hinPlace, h.placeOf_eq htarget]
  split
  · exact (h.requireWrite_agree _ _).bind fun _ _ _ => .ok trivial
  · exact (h.checkWrite_agree htarget _).bind fun _ _ _ => .ok trivial

theorem checkLet_agree (name : String) (ty : Option TypeExpr) (init : Option Expr) :
    Agree (fun answer answer' => answer.1.Matches same answer'.1) (ctx.checkLet name ty init)
      (ctx'.checkLet name ty init) := by
  have hvalue : ∀ {ty ty' : Ty} (init init' : Option Expr), ty.Matches same ty' →
      Agree (fun answer answer' : Ty × Option Expr => answer.1.Matches same answer'.1)
        (if ty.isValue then .ok (ty, init) else .error CheckCause.voidValue)
        (if ty'.isValue then .ok (ty', init') else .error .voidValue) := by
    intro ty ty' init init' hty
    rw [hty.isValue_eq]
    split
    · exact .ok hty
    · exact .error _
  unfold checkLet
  cases ty with
  | some written =>
    simp only [Option.mapM_some, map_eq_pure_bind, bind_assoc, pure_bind]
    refine (h.resolveType_agree written).bind fun declared declared' hdeclared => ?_
    cases init with
    | some init =>
      dsimp only
      refine (h.need_agree hdeclared (h.judges init)).bind fun init init' _ => ?_
      exact hvalue _ _ hdeclared
    | none => exact hvalue _ _ hdeclared
  | none =>
    simp only [Option.mapM_none, pure_bind]
    cases init with
    | none => exact .error _
    | some init =>
      dsimp only
      refine (needValue_agree (h.judges init)).bind ?_
      rintro ⟨ty, init⟩ ⟨ty', init'⟩ ⟨hty, hinit⟩
      dsimp only at hty ⊢
      rw [hty.same_eq h.classes.unique .null]
      split
      · exact .error _
      · exact hvalue _ _ hty

theorem checkReturn_agree (value : Option Expr) :
    Agree (fun _ _ => True) (ctx.checkReturn value) (ctx'.checkReturn value) := by
  have hret := h.ret
  unfold checkReturn
  revert hret
  generalize ctx.ret = ret
  generalize ctx'.ret = ret'
  intro hret
  cases value with
  | none =>
    have hdescribe := h.describe_eq hret
    cases hret with
    | void => exact .ok trivial
    | _ =>
      dsimp only
      rw [hdescribe]
      exact .error _
  | some value =>
    have hneed : Agree (fun _ _ => True) (some <$> ctx.need ret (ctx.checkExpr value))
        (some <$> ctx'.need ret' (ctx'.checkExpr value)) :=
      (h.need_agree hret (h.judges value)).bind fun _ _ _ => .ok trivial
    cases hret with
    | void =>
      refine (h.judges value).bind fun actual actual' hactual => ?_
      dsimp only
      rw [h.mismatch_eq .void hactual.ty]
      exact .error _
    | _ => exact hneed

theorem checkReshape_agree (verb lower : String) (target : Expr) (path : Path) :
    Agree (fun _ _ => True) (ctx.checkReshape verb lower target path)
      (ctx'.checkReshape verb lower target path) := by
  refine (needValue_agree (h.judges target)).bind fun checked checked' hchecked => ?_
  refine (h.objectClass_agree hchecked.ty lower).bind fun _ _ _ => ?_
  refine (h.resolveClass_agree path).bind fun _ _ _ => ?_
  split
  · exact (h.require_agree _ _).bind fun _ _ _ => .ok trivial
  · exact (h.require_agree _ _).bind fun _ _ _ => .ok trivial

/-- What a loop walks, and its variables. -/
theorem checkLoop_agree (key : String) (value : Option String) (keyTy valueTy : Option TypeExpr)
    (iter : Expr) :
    Agree (fun answer answer' => Table.Pairs (Ty.Matches same) answer.2.2 answer'.2.2)
      (do
        let (ty, iter) ← needValue (ctx.checkExpr iter)
        let plan ← ctx.loopPlan ty value.isSome
        ctx.checkDeclared keyTy (some plan.first)
        ctx.checkDeclared valueTy plan.second
        return (iter, plan, ← loopVariables plan key value))
      (do
        let (ty, iter) ← needValue (ctx'.checkExpr iter)
        let plan ← ctx'.loopPlan ty value.isSome
        ctx'.checkDeclared keyTy (some plan.first)
        ctx'.checkDeclared valueTy plan.second
        return (iter, plan, ← loopVariables plan key value)) := by
  refine (needValue_agree (h.judges iter)).bind fun checked checked' hchecked => ?_
  refine (h.loopPlan_agree hchecked.ty value.isSome).bind fun plan plan' hplan => ?_
  refine (h.checkDeclared_agree keyTy (.some hplan.first)).bind fun _ _ _ => ?_
  refine (h.checkDeclared_agree valueTy hplan.second).bind fun _ _ _ => ?_
  exact (loopVariables_agree hplan key value).bind fun _ _ hlocals => .ok hlocals

omit h

mutual

theorem checkStmt_agree : ∀ {ctx ctx' : CheckContext}, ctx.Matches same alike ctx' →
    ∀ stmt : Stmt, Agree (fun answer answer' => answer.2.Matches same alike answer'.2)
      (ctx.checkStmt stmt) (ctx'.checkStmt stmt)
  | _, _, h, .let _ name ty init span => by
    simp only [checkStmt]
    refine Agree.chargeTo ?_ span
    refine (h.checkLet_agree name ty init).bind ?_
    rintro ⟨ty, init⟩ ⟨ty', init'⟩ hty
    exact (h.declare_agree name hty).bind fun _ _ hafter => .ok hafter
  | _, _, h, .assign target value span => by
    simp only [checkStmt]
    refine Agree.chargeTo ?_ span
    refine (h.checkTarget_agree target).bind ?_
    rintro ⟨ty, target⟩ ⟨ty', target'⟩ ⟨hty, htarget⟩
    refine (h.need_agree hty (h.judges value)).bind fun _ _ _ => ?_
    exact (h.checkWrite_agree htarget "Assigning").bind fun _ _ _ => .ok h
  | _, _, h, .compound op target value span => by
    simp only [checkStmt]
    refine Agree.chargeTo ?_ span
    exact (h.checkCompound_agree op target value).bind fun _ _ _ => .ok h
  | _, _, h, .expr expr span => by
    simp only [checkStmt]
    refine Agree.chargeTo ?_ span
    exact (h.judges expr).bind fun _ _ _ => .ok h
  | _, _, h, .if cond yes no span => by
    simp only [checkStmt]
    refine ((h.need_agree .bool (h.judges cond)).chargeTo span).bind fun _ _ _ => ?_
    refine (checkBlock_agree (h.enter .empty) yes).bind fun _ _ _ => ?_
    exact (checkBlock_agree (h.enter .empty) no).bind fun _ _ _ => .ok h
  | _, _, h, .while cond body span => by
    simp only [checkStmt]
    refine ((h.need_agree .bool (h.judges cond)).chargeTo span).bind fun _ _ _ => ?_
    exact (checkBlock_agree (h.enterLoop .empty) body).bind fun _ _ _ => .ok h
  | _, _, h, .for _ key value keyTy valueTy iter body span => by
    simp only [checkStmt]
    refine ((h.checkLoop_agree key value keyTy valueTy iter).chargeTo span).bind
      fun answer answer' hlocals => ?_
    exact (checkBlock_agree (h.enterLoop hlocals) body).bind fun _ _ _ => .ok h
  | _, _, h, .return value span => by
    simp only [checkStmt]
    refine Agree.chargeTo ?_ span
    exact (h.checkReturn_agree value).bind fun _ _ _ => .ok h
  | _, _, h, .break span | _, _, h, .continue span => by
    simp only [checkStmt, h.inLoop]
    refine Agree.chargeTo ?_ span
    split
    · exact .ok h
    · exact .error _
  | _, _, h, .extend _ target path span | _, _, h, .retract _ target path span => by
    simp only [checkStmt]
    refine Agree.chargeTo ?_ span
    exact (h.checkReshape_agree _ _ target path).bind fun _ _ _ => .ok h
  | _, _, h, .enforce suggestion span => by
    simp only [checkStmt]
    refine Agree.chargeTo ?_ span
    refine (h.need_agree .suggestion (h.judges suggestion)).bind fun _ _ _ => ?_
    exact (h.require_agree _ _).bind fun _ _ _ => .ok h

theorem checkBlock_agree : ∀ {ctx ctx' : CheckContext}, ctx.Matches same alike ctx' →
    ∀ stmts : List Stmt, Agree (fun _ _ => True) (ctx.checkBlock stmts) (ctx'.checkBlock stmts)
  | _, _, _, [] => .ok trivial
  | _, _, h, stmt :: rest => by
    simp only [checkBlock]
    refine (checkStmt_agree h stmt).bind ?_
    rintro ⟨stmt, ctx⟩ ⟨stmt', ctx'⟩ hafter
    exact (checkBlock_agree hafter rest).bind fun _ _ _ => .ok trivial

end

end Matches

variable {ctx ctx' : CheckContext}

theorem parameters_agree (decl : MethodDecl) {sig sig' : MethodSig} (h : sig.Matches same sig') :
    Agree (Table.Pairs (Ty.Matches same)) (parameters decl sig) (parameters decl sig') := by
  have hparams : List.Forall₂ (fun entry entry' : Param × Ty => entry.1 = entry'.1 ∧
      entry.2.Matches same entry'.2) (decl.params.zip sig.params) (decl.params.zip sig'.params) := by
    have hsig := h.params
    generalize sig.params = types at hsig
    generalize sig'.params = types' at hsig
    generalize decl.params = params
    induction hsig generalizing params with
    | nil => simp
    | cons hty _ ih =>
      cases params with
      | nil => exact .nil
      | cons param params => exact .cons ⟨rfl, hty⟩ (ih params)
  refine Agree.foldlM .empty hparams ?_
  rintro table table' ⟨param, ty⟩ ⟨_, ty'⟩ htable ⟨rfl, hty⟩
  dsimp only at hty ⊢
  rw [htable.contains Table.biUnique_eq rfl]
  split
  · exact .error _
  · exact .ok (htable.insert Table.biUnique_eq rfl hty)

namespace Surrounds

variable (h : ctx.Surrounds same alike ctx') {cls cls' : ClassId} (hcls : same cls cls')
include h hcls

theorem checkMethod_agree {sig sig' : MethodSig} (hsig : sig.Matches same sig')
    (decl : MethodDecl) : Agree (fun _ _ => True) (ctx.checkMethod cls sig decl)
      (ctx'.checkMethod cls' sig' decl) := by
  refine ((parameters_agree decl hsig).chargeTo decl.span).bind fun params params' hparams => ?_
  have hctx : Matches same alike
      { ctx with
        cls, effects := Effects.ofSig sig, ret := sig.ret, scopes := [params], inLoop := false }
      { ctx' with
        cls := cls', effects := Effects.ofSig sig', ret := sig'.ret, scopes := [params'],
        inLoop := false } := {
    classes := h.classes
    names := h.names
    rootClass := h.rootClass
    clonableClass := h.clonableClass
    cls := hcls
    effects := by simp only [Effects.ofSig, hsig.mutating, hsig.mutatingThis]
    ret := hsig.ret
    scopes := .cons hparams .nil
    inLoop := rfl }
  exact (Matches.checkBlock_agree hctx decl.body).bind fun _ _ _ => .ok trivial

theorem checkInitializer_agree {ty ty' : Ty} (hty : ty.Matches same ty') (decl : FieldDecl) :
    Agree (fun _ _ => True) (ctx.checkInitializer cls ty decl)
      (ctx'.checkInitializer cls' ty' decl) := by
  have hctx : Matches same alike
      { ctx with cls, effects := {}, ret := ty, scopes := [∅], inLoop := false }
      { ctx' with cls := cls', effects := {}, ret := ty', scopes := [∅], inLoop := false } := {
    classes := h.classes
    names := h.names
    rootClass := h.rootClass
    clonableClass := h.clonableClass
    cls := hcls
    effects := rfl
    ret := hty
    scopes := .cons .empty .nil
    inLoop := rfl }
  unfold checkInitializer
  cases decl.init with
  | none => exact .ok trivial
  | some init =>
    simp only [Option.mapM_some, map_eq_pure_bind, bind_assoc, pure_bind]
    exact ((hctx.need_agree hty (hctx.judges init)).chargeTo decl.span).bind
      fun _ _ _ => .ok trivial

end Surrounds

end CheckContext

/-! The bodies of a class. -/

inductive Body.Alike (same : ClassId → ClassId → Prop) : Body → Body → Prop
  | method {cls cls' : ClassId} {sig sig' : MethodSig} {decl : MethodDecl} (hcls : same cls cls')
      (hsig : sig.Matches same sig') : Alike same (.method cls sig decl) (.method cls' sig' decl)
  | initializer {cls cls' : ClassId} {ty ty' : Ty} {decl : FieldDecl} (hcls : same cls cls')
      (hty : ty.Matches same ty') :
      Alike same (.initializer cls ty decl) (.initializer cls' ty' decl)

namespace Body

theorem ofClass_alike {classes classes' : ClassRegistry} (h : classes.Matches same classes')
    {id id' : ClassId} (hid : same id id') (decl : ClassDecl) :
    List.Forall₂ (Body.Alike same) (ofClass classes id decl) (ofClass classes' id' decl) := by
  obtain ⟨found, found', hget, hget', hfound⟩ := h.get? hid
  simp only [ofClass, hget, hget']
  refine List.rel_filterMap ?_ (List.forall₂_same.mpr fun _ _ => rfl)
  rintro member _ rfl
  cases member with
  | method decl =>
    obtain ⟨hnone, hnone'⟩ | ⟨sig, sig', hsome, hsome', hsig⟩ := rel_cases
      (find?_rel hfound.ownMethods fun sig sig' hsig =>
        (by rw [hsig.name] : decide (sig.name = decl.name) = decide (sig'.name = decl.name)))
    · simp only [ofMember, hnone, hnone']
      exact .none
    · simp only [ofMember, hsome, hsome']
      exact .some (.method hfound.id hsig)
  | field decl =>
    obtain ⟨hnone, hnone'⟩ | ⟨own, own', hsome, hsome', hown⟩ := rel_cases
      (find?_rel hfound.ownFields fun own own' hown =>
        (by rw [hown.name] : decide (own.name = decl.name) = decide (own'.name = decl.name)))
    · simp only [ofMember, hnone, hnone']
      exact .none
    · simp only [ofMember, hsome, hsome']
      exact .some (.initializer hfound.id hown.ty)

theorem ofClasses_alike {classes classes' : ClassRegistry} (h : classes.Matches same classes')
    {entries entries' : List (ClassId × ClassDecl)}
    (hentries : List.Forall₂ (fun entry entry' => same entry.1 entry'.1 ∧ entry.2 = entry'.2)
      entries entries') :
    List.Forall₂ (Body.Alike same) (entries.flatMap fun (id, decl) => ofClass classes id decl)
      (entries'.flatMap fun (id, decl) => ofClass classes' id decl) := by
  refine List.rel_flatMap hentries ?_
  rintro ⟨id, decl⟩ ⟨id', _⟩ ⟨hid, rfl⟩
  exact ofClass_alike h hid decl

theorem check_agree {ctx ctx' : CheckContext} (h : ctx.Surrounds same alike ctx')
    {body body' : Body} (hbody : body.Alike same body') :
    Agree (fun _ _ => True) (check ctx body) (check ctx' body') := by
  cases hbody with
  | method hcls hsig => exact (h.checkMethod_agree hcls hsig _).bind fun _ _ _ => .ok trivial
  | initializer hcls hty => exact (h.checkInitializer_agree hcls hty _).bind fun _ _ _ => .ok trivial

end Body

end Attire
