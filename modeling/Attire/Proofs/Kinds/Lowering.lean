import Attire.Proofs.Kinds.Code
import Attire.Proofs.Kinds.Definite
import Attire.Proofs.Lowering.Allocation

namespace Attire

/-! Checked bodies compile to code whose parts are of their kinds. -/

open CheckContext

/-- Bodies are checked in a context whose members are of these kinds. -/
structure Kinds.Surrounds (base : Kinds) (rooted : Bool) (ctx : CheckContext) (fabrics : Fabrics) :
    Prop where
  provides : ctx.Provides fabrics
  root : rooted → ctx.rootClass.isSome
  fabric {id : FabricId} {value : Value} : fabrics id = some value →
    value.OfKind base (.array .text)
  field {cls : ClassId} {name : String} {info : FieldInfo} : ctx.lookupField cls name = .ok info →
    ∃ kind, info.ty.kind? = some kind ∧ base.Holds info.key kind
  method {cls : ClassId} {name : String} {sig : MethodSig} : ctx.lookupMethod cls name = .ok sig →
    base.classes.contains cls ∧ ∃ params ret, Ty.kinds? sig.params = some params ∧
      sig.ret.kind? = some ret ∧ base.Takes sig.slot params ret

theorem Kinds.Surrounds.scoped {base : Kinds} {rooted : Bool} {ctx : CheckContext}
    {fabrics : Fabrics} (h : base.Surrounds rooted ctx fabrics) (cls : ClassId) (effects : Effects)
    (ret : Ty) (scopes : List (Table String Ty)) (inLoop : Bool) :
    base.Surrounds rooted { ctx with cls, effects, ret, scopes, inLoop } fabrics :=
  ⟨h.provides, h.root, h.fabric, h.field, h.method⟩

namespace Locals

/-- Every variable lies in a slot of the kind of its type. -/
def Lies (locals : Locals) (layout : Layout) : Prop :=
  ∀ name found, locals.find? name = some found →
    ∃ kind, found.ty.kind? = some kind ∧ layout found.slot = some kind

variable {locals : Locals} {layout next : Layout} {slot : Nat} {kind : Kind} {ty : Ty}

theorem Lies.ofPath? (h : locals.Lies layout) {path : Path} {found : Local}
    (hpath : locals.ofPath? path = some found) :
    ∃ kind, found.ty.kind? = some kind ∧ layout found.slot = some kind := by
  unfold Locals.ofPath? at hpath
  split at hpath
  case h_1 name => exact h name found hpath
  case h_2 => cases hpath

theorem Lies.keeps (h : locals.Lies layout) (hkeeps : layout.Keeps next) : locals.Lies next := by
  intro name found hfound
  obtain ⟨kind, hkind, hslot⟩ := h name found hfound
  exact ⟨kind, hkind, hkeeps _ _ hslot⟩

theorem Lies.declare (h : locals.Lies layout) (name : String) (hkind : ty.kind? = some kind)
    (hslot : layout.Takes slot kind) :
    (locals.declare name ⟨slot, ty⟩).Lies (layout.put slot kind) := by
  intro other found hfound
  rw [find?_declare] at hfound
  split at hfound
  case isTrue =>
    cases hfound
    exact ⟨kind, hkind, Layout.put_self⟩
  case isFalse => exact h.keeps hslot.keeps other found hfound

theorem Lies.enter (h : locals.Lies layout) : Lies (∅ :: locals) layout := fun name => h name

/-- The scopes of a compilation that binds just these variables. -/
theorem bound_slots (locals : Locals) :
    locals.Bound { scopes := locals.map (Table.mapValues Local.slot) } := by
  intro name
  induction locals with
  | nil => rfl
  | cons scope outer ih =>
    simp only [List.map_cons, Lower.findSlot, find?, Table.get?_mapValues]
    cases scope.get? name with
    | none => exact ih
    | some found => rfl

end Locals

/-- A compilation has only one answer. -/
theorem Lower.Reads.unique {α : Type} {locals : Locals} {run : Lower α} {answer answer' : α}
    (h : Reads locals run answer) (h' : Reads locals run answer') : answer = answer' :=
  congrArg Prod.fst ((h _ locals.bound_slots).symm.trans (h' _ locals.bound_slots))

/-- The code of an expression is of the kind of its type, or it is that of `null`. -/
inductive Code.Stands (base : Kinds) (layout : Layout) : Expr → Ty → Code → Prop
  | null {expr : Expr} : expr.isNull → Stands base layout expr .null .null
  | kinded {expr : Expr} {ty : Ty} {code : Code} {kind : Kind} : ty.kind? = some kind →
      code.Kinded base layout kind → Stands base layout expr ty code

/-- The codes of expressions, one by one. -/
inductive Code.AllStand (base : Kinds) (layout : Layout) : List Expr → List Ty → List Code → Prop
  | nil : AllStand base layout [] [] []
  | cons {expr : Expr} {ty : Ty} {code : Code} {exprs : List Expr} {types : List Ty}
      {codes : List Code} : code.Stands base layout expr ty → AllStand base layout exprs types codes →
      AllStand base layout (expr :: exprs) (ty :: types) (code :: codes)

section

variable {base : Kinds} {layout : Layout} {expr : Expr} {code : Code} {kind : Kind} {ty : Ty}
variable {ctx : CheckContext}

namespace Code.Stands

theorem of_kind (h : code.Stands base layout expr ty) (hkind : ty.kind? = some kind) :
    code.Kinded base layout kind := by
  cases h with
  | null => cases hkind
  | kinded hty hcode =>
    cases hty.symm.trans hkind
    exact hcode

theorem any (h : code.Stands base layout expr ty) : ∃ kind, code.Kinded base layout kind := by
  cases h with
  | null => exact ⟨.object, .null rfl⟩
  | kinded _ hcode => exact ⟨_, hcode⟩

theorem object {cls : ClassId} (h : code.Stands base layout expr (.object cls)) :
    code.Kinded base layout .object :=
  h.of_kind rfl

/-- What stands where a type is wanted is of the kind of that. -/
theorem fits {expected : Ty} (h : code.Stands base layout expr ty)
    (haccepts : ctx.accepts expected ty) (hexpected : expected.kind? = some kind) :
    code.Kinded base layout kind := by
  cases h with
  | null =>
    exact .null (Ty.isNullable_of_kind? hexpected (Ty.subtype_iff.mp haccepts))
  | kinded hty hcode =>
    rw [← Ty.kind?_of_subtype haccepts hty hexpected]
    exact hcode

end Code.Stands

theorem CheckContext.commonType_eq_ok {types : List Ty} {common : Ty}
    (h : ctx.commonType types = .ok common) : common ∈ types ∧ common.same .null = false ∧
      ∀ ty ∈ types, ty.same common ∨ ty.same .null ∧ common.isNullable := by
  unfold commonType at h
  split at h
  case h_2 => cases h
  case h_1 found hfound =>
    dsimp only at h
    split at h
    case h_1 => cases h
    case h_2 hnone =>
      cases h
      refine ⟨List.mem_of_find?_eq_some hfound, by simpa using List.find?_some hfound, ?_⟩
      intro ty hmem
      have hfits := List.find?_eq_none.mp hnone ty hmem
      rwa [Bool.not_eq_true, Bool.not_eq_false', Bool.or_eq_true_iff, Bool.and_eq_true_iff] at hfits

namespace Code.AllStand

variable {exprs : List Expr} {types : List Ty} {codes : List Code}

theorem exists_kind (h : AllStand base layout exprs types codes) (hmem : ty ∈ types)
    (hnull : ty.same .null = false) : ∃ kind, ty.kind? = some kind := by
  induction h with
  | nil => cases hmem
  | cons hcode _ ih =>
    rcases List.mem_cons.mp hmem with rfl | hmem
    · cases hcode with
      | null => cases hnull
      | kinded hty _ => exact ⟨_, hty⟩
    · exact ih hmem

/-- Elements of types that join in one type are of its kind. -/
theorem array {common : Ty} (h : AllStand base layout exprs types codes)
    (hcommon : common.kind? = some kind)
    (hfits : ∀ ty ∈ types, ty.same common ∨ ty.same .null ∧ common.isNullable) :
    ∀ code ∈ codes, code.Kinded base layout kind := by
  induction h with
  | nil => nofun
  | cons hcode _ ih =>
    obtain ⟨hfirst, hrest⟩ := List.forall_mem_cons.mp hfits
    refine List.forall_mem_cons.mpr ⟨?_, ih hrest⟩
    rcases hfirst with hsame | ⟨hnull, hnullable⟩
    · exact hcode.of_kind ((Ty.kind?_of_same hsame).trans hcommon)
    · cases hcode with
      | null => exact .null (Ty.isNullable_of_kind? hcommon hnullable)
      | kinded hty _ =>
        rw [Ty.kind?_of_same hnull] at hty
        cases hty

/-- Without `null` itself every element of a tuple has its own kind. -/
theorem tuple (h : AllStand base layout exprs types codes)
    (hnull : exprs.any Expr.isNull = false) : ∃ kinds, Ty.kinds? types = some kinds ∧
      List.Forall₂ (Code.Kinded base layout) codes kinds := by
  induction h with
  | nil => exact ⟨[], rfl, .nil⟩
  | cons hcode _ ih =>
    rw [List.any_cons, Bool.or_eq_false_iff] at hnull
    obtain ⟨kinds, hkinds, hcodes⟩ := ih hnull.2
    cases hcode with
    | null hisNull =>
      rw [hisNull] at hnull
      cases hnull.1
    | kinded hty hcode =>
      exact ⟨_, Ty.kinds?_cons.mpr ⟨_, kinds, hty, hkinds, rfl⟩, .cons hcode hcodes⟩

end Code.AllStand

end

namespace Lower

variable {base : Kinds} {rooted : Bool} {ctx : CheckContext} {fabrics : Fabrics}
variable {locals : Locals} {layout : Layout}

theorem Reads.addsText_of {op : BinaryOp} {result : Expr} {ty : Ty} (h : result.ty? = some ty) :
    Reads locals (Lower.addsText op result) (op = .add && ty.same .text) := by
  unfold Lower.addsText
  by_cases hop : op = .add
  · rw [if_pos hop, decide_eq_true hop]
    exact (Reads.typeOf h).bind (Reads.pure _)
  · rw [if_neg hop, decide_eq_false hop]
    exact Reads.pure false

theorem binaryCode_kinded {op : BinaryOp} {leftTy rightTy ty : Ty} {left right : Code}
    {kind kind' : Kind} (hty : ctx.checkBinary op leftTy rightTy = .ok ty)
    (hleft : left.Kinded base layout kind) (hright : right.Kinded base layout kind') :
    ∃ kind, ty.kind? = some kind ∧
      (binaryCode op (op = .add && ty.same .text) left right).Kinded base layout kind := by
  cases op with
  | add =>
    simp only [checkBinary] at hty
    split at hty
    case h_1 =>
      cases hty
      exact ⟨.num, rfl, .arith hleft hright⟩
    case h_4 => cases hty
    all_goals
      obtain ⟨-, hty⟩ := if_eq_ok.mp hty
      cases hty
      exact ⟨.text, rfl, .concat hleft hright⟩
  | sub | mul | div | rem =>
    simp only [checkBinary] at hty
    split at hty
    case h_2 => cases hty
    case h_1 =>
      cases hty
      exact ⟨.num, rfl, .arith hleft hright⟩
  | eq | ne =>
    obtain ⟨-, hty⟩ := if_eq_ok.mp hty
    cases hty
    exact ⟨.bool, rfl, .equal hleft hright⟩
  | lt | le | gt | ge =>
    simp only [checkBinary] at hty
    split at hty
    case h_3 => cases hty
    all_goals
      cases hty
      exact ⟨.bool, rfl, .compare hleft hright⟩
  | and | or =>
    simp only [checkBinary] at hty
    split at hty
    case h_2 => cases hty
    case h_1 =>
      cases hty
      exact ⟨.bool, rfl, .logic hleft hright⟩

/-- The expression compiles to code that stands for it. -/
def Yields (base : Kinds) (layout : Layout) (fabrics : Fabrics) (locals : Locals) (expr : Expr)
    (ty : Ty) : Prop :=
  ∃ code, Reads locals (lowerExpr fabrics expr) code ∧ code.Stands base layout expr ty

namespace Yields

theorem fits {expr : Expr} {expected ty : Ty} {kind : Kind}
    (h : Yields base layout fabrics locals expr ty) (haccepts : ctx.accepts expected ty)
    (hexpected : expected.kind? = some kind) :
    ∃ code, Reads locals (lowerExpr fabrics expr) code ∧ code.Kinded base layout kind := by
  obtain ⟨code, hreads, hcode⟩ := h
  exact ⟨code, hreads, hcode.fits haccepts hexpected⟩

theorem any {expr : Expr} {ty : Ty} (h : Yields base layout fabrics locals expr ty) :
    ∃ code kind, Reads locals (lowerExpr fabrics expr) code ∧ code.Kinded base layout kind := by
  obtain ⟨code, hreads, hcode⟩ := h
  obtain ⟨kind, hkind⟩ := hcode.any
  exact ⟨code, kind, hreads, hkind⟩

theorem object {expr : Expr} {cls : ClassId}
    (h : Yields base layout fabrics locals expr (.object cls)) :
    ∃ code, Reads locals (lowerExpr fabrics expr) code ∧ code.Kinded base layout .object := by
  obtain ⟨code, hreads, hcode⟩ := h
  exact ⟨code, hreads, hcode.object⟩

end Yields

/-- Where expressions are compiled: the context of the checker, and the slots of its variables. -/
structure Setting (base : Kinds) (rooted : Bool) (ctx : CheckContext) (fabrics : Fabrics)
    (locals : Locals) (layout : Layout) : Prop where
  surrounds : base.Surrounds rooted ctx fabrics
  types : ctx.scopes = locals.types
  lies : locals.Lies layout

mutual

theorem lowerExpr_yields (h : Setting base rooted ctx fabrics locals layout) :
    ∀ {expr : Expr} {ty : Ty}, ctx.ExprTyped expr ty → expr.definite rooted →
      Yields base layout fabrics locals expr ty
  | _, _, .num, _ => ⟨_, Reads.pure _, .kinded rfl .num⟩
  | _, _, .text, _ => ⟨_, Reads.pure _, .kinded rfl .text⟩
  | _, _, .bool, _ => ⟨_, Reads.pure _, .kinded rfl .bool⟩
  | _, _, .null, _ => ⟨_, Reads.pure _, .null rfl⟩
  | _, _, .this, _ => ⟨_, Reads.pure _, .kinded rfl .this⟩
  | _, _, .random, _ => ⟨_, Reads.pure _, .kinded rfl .random⟩
  | _, _, .caller, hdefinite => by
    obtain ⟨root, hroot⟩ := Option.isSome_iff_exists.mp (h.surrounds.root hdefinite)
    rw [hroot]
    exact ⟨.caller, Reads.pure _, .kinded rfl .caller⟩
  | _, _, @ExprTyped.var _ path ty hlocal, _ => by
    rw [localOfPath?_types h.types, Option.map_eq_some_iff] at hlocal
    obtain ⟨found, hfound, rfl⟩ := hlocal
    obtain ⟨kind, hkind, hslot⟩ := h.lies.ofPath? hfound
    refine ⟨.local found.slot, (Reads.localOfPath? path).bind ?_, .kinded hkind (.local hslot)⟩
    rw [hfound]
    exact Reads.pure _
  | _, _, @ExprTyped.fabric _ path id hlocal hfabric, _ => by
    obtain ⟨value, hvalue⟩ := h.surrounds.provides _ _ hfabric
    rw [localOfPath?_types h.types, Option.map_eq_none_iff] at hlocal
    refine ⟨.const value, (Reads.localOfPath? path).bind ?_,
      .kinded (Ty.kind?_array.mpr ⟨.text, rfl, rfl⟩) (.const (h.surrounds.fabric hvalue))⟩
    simp only [hlocal, Option.map_none, Option.bind_some, hvalue]
    exact Reads.pure _
  | _, _, .field hobject hlookup, hdefinite => by
    obtain ⟨object, hreads, hobject⟩ := (lowerExpr_yields h hobject hdefinite).object
    obtain ⟨kind, hkind, hholds⟩ := h.surrounds.field hlookup
    exact ⟨.getField object _ _, hreads.bind (Reads.pure _),
      .kinded hkind (.getField hobject hholds hkind)⟩
  | _, _, @ExprTyped.indexArray _ _ _ element _ hobject hindex _ haccepts, hdefinite => by
    obtain ⟨hobjectDefinite, hindexDefinite⟩ := Bool.and_eq_true_iff.mp hdefinite
    have hty := hobject.ty?
    obtain ⟨object, hreads, hobject⟩ := lowerExpr_yields h hobject hobjectDefinite
    obtain ⟨index, hreads', hindex⟩ :=
      (lowerExpr_yields h hindex hindexDefinite).fits haccepts rfl
    have hkind : Reads locals (indexKind _) .array := (Reads.typeOf hty).bind (Reads.pure _)
    cases hobject with
    | kinded hof hobject =>
      obtain ⟨kind, helement, rfl⟩ := Ty.kind?_array.mp hof
      exact ⟨.index object .array index element,
        hkind.bind ((Reads.typeOf rfl).bind (hreads.bind (hreads'.bind (Reads.pure _)))),
        .kinded helement (.index hobject hindex .array helement)⟩
  | _, _, @ExprTyped.indexText _ _ _ _ hobject hindex _ haccepts, hdefinite => by
    obtain ⟨hobjectDefinite, hindexDefinite⟩ := Bool.and_eq_true_iff.mp hdefinite
    have hty := hobject.ty?
    obtain ⟨object, hreads, hobject⟩ := lowerExpr_yields h hobject hobjectDefinite
    obtain ⟨index, hreads', hindex⟩ :=
      (lowerExpr_yields h hindex hindexDefinite).fits haccepts rfl
    have hkind : Reads locals (indexKind _) .text := (Reads.typeOf hty).bind (Reads.pure _)
    exact ⟨.index object .text index .text,
      hkind.bind ((Reads.typeOf rfl).bind (hreads.bind (hreads'.bind (Reads.pure _)))),
      .kinded rfl (.index (hobject.of_kind rfl) hindex .text rfl)⟩
  | _, _, @ExprTyped.indexMap _ _ _ key value _ hobject hindex _ haccepts, hdefinite => by
    obtain ⟨hobjectDefinite, hindexDefinite⟩ := Bool.and_eq_true_iff.mp hdefinite
    have hty := hobject.ty?
    obtain ⟨object, hreads, hobject⟩ := lowerExpr_yields h hobject hobjectDefinite
    have hkind : Reads locals (indexKind _) .map := (Reads.typeOf hty).bind (Reads.pure _)
    cases hobject with
    | kinded hof hobject =>
      obtain ⟨keyKind, valueKind, hkey, hvalue, rfl⟩ := Ty.kind?_map.mp hof
      obtain ⟨index, hreads', hindex⟩ :=
        (lowerExpr_yields h hindex hindexDefinite).fits haccepts hkey
      exact ⟨.index object .map index value,
        hkind.bind ((Reads.typeOf rfl).bind (hreads.bind (hreads'.bind (Reads.pure _)))),
        .kinded hvalue (.index hobject hindex .map hvalue)⟩
  | _, _, .indexTuple hobject _ hposition, hdefinite => by
    obtain ⟨hobjectDefinite, -⟩ := Bool.and_eq_true_iff.mp hdefinite
    obtain ⟨object, hreads, hobject⟩ := lowerExpr_yields h hobject hobjectDefinite
    cases hobject with
    | kinded hof hobject =>
      obtain ⟨kinds, hkinds, rfl⟩ := Ty.kind?_tuple.mp hof
      obtain ⟨kind, hkind, helement⟩ := Ty.kinds?_getElem? hkinds hposition
      exact ⟨.tupleGet object _, hreads.bind (Reads.pure _),
        .kinded hkind (.tupleGet hobject helement)⟩
  | _, _, .call hobject hlookup _ hargs, hdefinite => by
    obtain ⟨hobjectDefinite, hargsDefinite⟩ := Bool.and_eq_true_iff.mp hdefinite
    obtain ⟨-, params, ret, hparams, hret, htakes⟩ := h.surrounds.method hlookup
    obtain ⟨object, hreads, hobject⟩ :=
      (lowerExpr_yields h hobject hobjectDefinite).object
    obtain ⟨args, hreads', hargs⟩ := lowerArgs_yields h hargs hargsDefinite hparams
    exact ⟨.call object _ args _, hreads.bind (hreads'.bind (Reads.pure _)),
      .kinded hret (.call hobject htakes hret hargs)⟩
  | _, _, .superCall hlookup _ hargs, hdefinite => by
    obtain ⟨hparent, params, ret, hparams, hret, htakes⟩ :=
      h.surrounds.method (lookupSuper_eq_ok hlookup).2
    obtain ⟨args, hreads, hargs⟩ := lowerArgs_yields h hargs hdefinite hparams
    exact ⟨.superCall _ _ args, hreads.bind (Reads.pure _),
      .kinded hret (.superCall hparent htakes hargs)⟩
  | _, _, .newObject _, _ => ⟨_, (Reads.typeOf rfl).bind (Reads.pure _), .kinded rfl .new⟩
  | _, .array _, .newContainer hwritten _, _ => by
    obtain ⟨kind, hkind⟩ := Ty.kind?_of_resolveType (mapError_eq_ok.mp hwritten)
    obtain ⟨_, -, rfl⟩ := Ty.kind?_array.mp hkind
    exact ⟨_, (Reads.typeOf rfl).bind (Reads.pure _), .kinded hkind .newArray⟩
  | _, .map _ _, .newContainer hwritten _, _ => by
    obtain ⟨kind, hkind⟩ := Ty.kind?_of_resolveType (mapError_eq_ok.mp hwritten)
    obtain ⟨_, _, -, -, rfl⟩ := Ty.kind?_map.mp hkind
    exact ⟨_, (Reads.typeOf rfl).bind (Reads.pure _), .kinded hkind .newMap⟩
  | _, .set _, .newContainer hwritten _, _ => by
    obtain ⟨kind, hkind⟩ := Ty.kind?_of_resolveType (mapError_eq_ok.mp hwritten)
    obtain ⟨_, -, rfl⟩ := Ty.kind?_set.mp hkind
    exact ⟨_, (Reads.typeOf rfl).bind (Reads.pure _), .kinded hkind .newSet⟩
  | _, _, .binary hleft _ hright _ hty, hdefinite => by
    obtain ⟨hleftDefinite, hrightDefinite⟩ := Bool.and_eq_true_iff.mp hdefinite
    obtain ⟨left, _, hreads, hleft⟩ := (lowerExpr_yields h hleft hleftDefinite).any
    obtain ⟨right, _, hreads', hright⟩ :=
      (lowerExpr_yields h hright hrightDefinite).any
    obtain ⟨kind, hkind, hcode⟩ := binaryCode_kinded hty hleft hright
    exact ⟨_, (Reads.addsText_of rfl).bind (hreads.bind (hreads'.bind (Reads.pure _))),
      .kinded hkind hcode⟩
  | _, _, .neg hoperand _ _, hdefinite => by
    obtain ⟨operand, _, hreads, hoperand⟩ := (lowerExpr_yields h hoperand hdefinite).any
    exact ⟨.neg operand, hreads.bind (Reads.pure _), .kinded rfl (.neg hoperand)⟩
  | _, _, .not hoperand _ _, hdefinite => by
    obtain ⟨operand, _, hreads, hoperand⟩ := (lowerExpr_yields h hoperand hdefinite).any
    exact ⟨.not operand, hreads.bind (Reads.pure _), .kinded rfl (.not hoperand)⟩
  | _, _, .clone hvalue hclonable, hdefinite => by
    obtain ⟨value, hreads, hvalue⟩ := lowerExpr_yields h hvalue hdefinite
    cases hvalue with
    | null => cases hclonable
    | kinded hkind hvalue =>
      exact ⟨.clone value, hreads.bind (Reads.pure _), .kinded hkind (.clone hvalue)⟩
  | _, _, .len hvalue, hdefinite => by
    obtain ⟨value, _, hreads, hvalue⟩ := (lowerExpr_yields h hvalue hdefinite).any
    exact ⟨.len value, hreads.bind (Reads.pure _), .kinded rfl (.len hvalue)⟩
  | _, _, .is hvalue _, hdefinite => by
    obtain ⟨value, _, hreads, hvalue⟩ := (lowerExpr_yields h hvalue hdefinite).any
    exact ⟨.is value _, hreads.bind (Reads.pure _), .kinded rfl (.is hvalue)⟩
  | _, _, .array hvalues hcommon, hdefinite => by
    obtain ⟨codes, hreads, hcodes⟩ := lowerValues_yields h hvalues hdefinite
    obtain ⟨hmem, hnull, hfits⟩ := commonType_eq_ok hcommon
    obtain ⟨kind, hkind⟩ := hcodes.exists_kind hmem hnull
    exact ⟨.array codes, hreads.bind (Reads.pure _),
      .kinded (Ty.kind?_array.mpr ⟨kind, hkind, rfl⟩) (.array (hcodes.array hkind hfits))⟩
  | _, _, .tuple hvalues, hdefinite => by
    obtain ⟨hdefinite, hnull⟩ := Bool.and_eq_true_iff.mp hdefinite
    obtain ⟨codes, hreads, hcodes⟩ := lowerValues_yields h hvalues hdefinite
    obtain ⟨kinds, hkinds, hcodes⟩ := hcodes.tuple (by simpa using hnull)
    exact ⟨.tuple codes, hreads.bind (Reads.pure _),
      .kinded (Ty.kind?_tuple.mpr ⟨kinds, hkinds, rfl⟩) (.tuple hcodes)⟩
  | _, _, .cast .., hdefinite => nomatch hdefinite
  | _, _, .hasKey hcollection hkey _ _, hdefinite
  | _, _, .hasItem hcollection hkey _ _, hdefinite => by
    obtain ⟨hcollectionDefinite, hkeyDefinite⟩ := Bool.and_eq_true_iff.mp hdefinite
    obtain ⟨collection, _, hreads, hcollection⟩ :=
      (lowerExpr_yields h hcollection hcollectionDefinite).any
    obtain ⟨key, _, hreads', hkey⟩ := (lowerExpr_yields h hkey hkeyDefinite).any
    exact ⟨.has collection key, hreads.bind (hreads'.bind (Reads.pure _)),
      .kinded rfl (.has hcollection hkey)⟩
  | _, _, .suggest hsteps, hdefinite => by
    obtain ⟨steps, hreads, hsteps⟩ := lowerSteps_yields h hsteps hdefinite
    exact ⟨.suggest steps, hreads.bind (Reads.pure _), .kinded rfl (.suggest hsteps)⟩

theorem lowerArgs_yields (h : Setting base rooted ctx fabrics locals layout) :
    ∀ {params : List Ty} {args : List Expr}, ctx.ArgsTyped params args →
      Expr.allDefinite rooted args → ∀ {kinds : List Kind}, Ty.kinds? params = some kinds →
      ∃ codes, Reads locals (lowerExprs fabrics args) codes ∧
        List.Forall₂ (Code.Kinded base layout) codes kinds
  | _, _, .nil, _, _, hkinds => by
    cases hkinds
    exact ⟨[], Reads.pure _, .nil⟩
  | _, _, .cons harg _ haccepts hargs, hdefinite, _, hkinds => by
    obtain ⟨hargDefinite, hargsDefinite⟩ := Bool.and_eq_true_iff.mp hdefinite
    obtain ⟨kind, kinds, hkind, hothers, rfl⟩ := Ty.kinds?_cons.mp hkinds
    obtain ⟨arg, hreads, harg⟩ :=
      (lowerExpr_yields h harg hargDefinite).fits haccepts hkind
    obtain ⟨args, hreads', hargs⟩ := lowerArgs_yields h hargs hargsDefinite hothers
    exact ⟨arg :: args, hreads.bind (hreads'.bind (Reads.pure _)), .cons harg hargs⟩

theorem lowerValues_yields (h : Setting base rooted ctx fabrics locals layout) :
    ∀ {types : List Ty} {elements : List Expr}, ctx.ValuesTyped types elements →
      Expr.allDefinite rooted elements →
      ∃ codes, Reads locals (lowerExprs fabrics elements) codes ∧
        Code.AllStand base layout elements types codes
  | _, _, .nil, _ => ⟨[], Reads.pure _, .nil⟩
  | _, _, .cons helement _ helements, hdefinite => by
    obtain ⟨hfirst, hrest⟩ := Bool.and_eq_true_iff.mp hdefinite
    obtain ⟨code, hreads, hcode⟩ := lowerExpr_yields h helement hfirst
    obtain ⟨codes, hreads', hcodes⟩ := lowerValues_yields h helements hrest
    exact ⟨code :: codes, hreads.bind (hreads'.bind (Reads.pure _)), .cons hcode hcodes⟩

theorem lowerStep_yields (h : Setting base rooted ctx fabrics locals layout) :
    ∀ {step : SuggestStep}, ctx.StepTyped step → step.definite rooted →
      ∃ code, Reads locals (lowerStep fabrics step) (some code) ∧ code.Kinded base layout
  | _, .extend htarget _, hdefinite => by
    obtain ⟨target, hreads, htarget⟩ := (lowerExpr_yields h htarget hdefinite).object
    exact ⟨.extend target _, hreads.bind (Reads.pure _), .extend htarget⟩
  | _, .retract htarget _, hdefinite => by
    obtain ⟨target, hreads, htarget⟩ := (lowerExpr_yields h htarget hdefinite).object
    exact ⟨.retract target _, hreads.bind (Reads.pure _), .retract htarget⟩
  | _, .call htarget hlookup hargs, hdefinite => by
    obtain ⟨htargetDefinite, hargsDefinite⟩ := Bool.and_eq_true_iff.mp hdefinite
    obtain ⟨-, params, ret, hparams, -, htakes⟩ := h.surrounds.method hlookup
    obtain ⟨target, hreads, htarget⟩ :=
      (lowerExpr_yields h htarget htargetDefinite).object
    obtain ⟨args, hreads', hargs⟩ := lowerArgs_yields h hargs hargsDefinite hparams
    exact ⟨.call target _ args, hreads.bind (hreads'.bind (Reads.pure _)),
      .call htarget htakes hargs⟩

theorem lowerSteps_yields (h : Setting base rooted ctx fabrics locals layout) :
    ∀ {steps : List SuggestStep}, ctx.StepsTyped steps → SuggestStep.allDefinite rooted steps →
      ∃ codes, Reads locals (lowerSteps fabrics steps) codes ∧
        ∀ code ∈ codes, code.Kinded base layout
  | _, .nil, _ => ⟨[], Reads.pure _, nofun⟩
  | _, .cons hstep hrest, hdefinite => by
    obtain ⟨hstepDefinite, hrestDefinite⟩ := Bool.and_eq_true_iff.mp hdefinite
    obtain ⟨step, hreads, hstep⟩ := lowerStep_yields h hstep hstepDefinite
    obtain ⟨rest, hreads', hrest⟩ := lowerSteps_yields h hrest hrestDefinite
    exact ⟨step :: rest, hreads.bind (hreads'.bind (Reads.pure _)),
      List.forall_mem_cons.mpr ⟨hstep, hrest⟩⟩

end

namespace Setting

variable {expr : Expr} {code : Code} {kind : Kind} {expected ty : Ty}

theorem stands (h : Setting base rooted ctx fabrics locals layout) (htyped : ctx.ExprTyped expr ty)
    (hdefinite : expr.definite rooted) (hcode : expr.Compiles fabrics locals code) :
    code.Stands base layout expr ty := by
  obtain ⟨_, hreads, hstands⟩ := lowerExpr_yields h htyped hdefinite
  exact hcode.reads.unique hreads ▸ hstands

theorem fits (h : Setting base rooted ctx fabrics locals layout) (hfits : ctx.Fits expected expr)
    (hexpected : expected.kind? = some kind) (hdefinite : expr.definite rooted)
    (hcode : expr.Compiles fabrics locals code) : code.Kinded base layout kind := by
  obtain ⟨ty, htyped, -, haccepts⟩ := hfits
  exact (h.stands htyped hdefinite hcode).fits haccepts hexpected

theorem operand (h : Setting base rooted ctx fabrics locals layout) {op : CompoundOp}
    {inPlace : Bool} (hvalue : ctx.OperandTyped op ty expr inPlace)
    (hdefinite : expr.definite rooted) (hcode : expr.Compiles fabrics locals code) :
    ∃ kind, code.Kinded base layout kind := by
  cases hvalue with
  | text htyped => exact (h.stands htyped hdefinite hcode).any
  | addToArray hfits | addToSet hfits | removeFromMap hfits | removeFromSet hfits | number hfits
  | suggestion hfits =>
    obtain ⟨_, htyped, -⟩ := hfits
    exact (h.stands htyped hdefinite hcode).any

/-- The slots may be of more kinds. -/
theorem keeps (h : Setting base rooted ctx fabrics locals layout) {next : Layout}
    (hkeeps : layout.Keeps next) : Setting base rooted ctx fabrics locals next :=
  ⟨h.surrounds, h.types, h.lies.keeps hkeeps⟩

end Setting

theorem typed_field {target object : Expr} {name : String} {info : FieldInfo} {ty : Ty}
    (htarget : ctx.ExprTyped target ty) (hform : target.form = .field object name)
    (hmeaning : target.meaning? = some (.field info)) :
    ty = info.ty ∧ ∃ cls, ctx.ExprTyped object (.object cls) ∧
      ctx.lookupField cls name = .ok info := by
  cases htarget with
  | field hobject hlookup =>
    cases hform
    cases hmeaning
    exact ⟨rfl, _, hobject, hlookup⟩
  | _ => cases hform

/-- The parts of an element that can be assigned to are of the kinds that the element goes with. -/
theorem Setting.element (h : Setting base rooted ctx fabrics locals layout) {note : Option Note}
    {object index : Expr} {by' : IndexKind} {ty : Ty}
    (htarget : ctx.ExprTyped (.mk note (.index object index)) ty)
    (hassignable : Assignable (.mk note (.index object index)))
    (hby : Reads locals (indexKind object) by') (hdefinite : object.definite rooted)
    (hdefinite' : index.definite rooted) :
    ∃ of indexOf kind, ty.kind? = some kind ∧ of.Indexed by' indexOf kind ∧
      ∀ {next}, layout.Keeps next →
        (∀ {code}, object.Compiles fabrics locals code → code.Kinded base next of) ∧
          ∀ {code}, index.Compiles fabrics locals code → code.Kinded base next indexOf := by
  cases htarget with
  | indexArray hobject hindex hvalue haccepts =>
    have harray : Reads locals (indexKind object) .array :=
      (Reads.typeOf hobject.ty?).bind (Reads.pure _)
    cases hby.unique harray
    obtain ⟨_, -, hstands⟩ := lowerExpr_yields h hobject hdefinite
    cases hstands with
    | kinded hof _ =>
      have hof' := hof
      obtain ⟨kind, helement, rfl⟩ := Ty.kind?_array.mp hof'
      refine ⟨.array kind, .num, kind, helement, .array, fun hkeeps => ⟨fun hcode => ?_, fun hcode => ?_⟩⟩
      · exact ((h.keeps hkeeps).stands hobject hdefinite hcode).of_kind hof
      · exact ((h.keeps hkeeps).stands hindex hdefinite' hcode).fits haccepts rfl
  | indexMap hobject hindex hvalue haccepts =>
    have hmap : Reads locals (indexKind object) .map :=
      (Reads.typeOf hobject.ty?).bind (Reads.pure _)
    cases hby.unique hmap
    obtain ⟨_, -, hstands⟩ := lowerExpr_yields h hobject hdefinite
    cases hstands with
    | kinded hof _ =>
      have hof' := hof
      obtain ⟨keyKind, kind, hkey, hcontent, rfl⟩ := Ty.kind?_map.mp hof'
      refine ⟨.map keyKind kind, keyKind, kind, hcontent, .map,
        fun hkeeps => ⟨fun hcode => ?_, fun hcode => ?_⟩⟩
      · exact ((h.keeps hkeeps).stands hobject hdefinite hcode).of_kind hof
      · exact ((h.keeps hkeeps).stands hindex hdefinite' hcode).fits haccepts hkey
  | indexText hobject | indexTuple hobject =>
    rcases hassignable with ⟨_, hty⟩ | ⟨_, _, hty⟩ <;> cases hobject.ty?.symm.trans hty

theorem combine_kinded {op : CompoundOp} {ty : Ty} {value : Expr} {current operand : Code}
    {kind kind' : Kind} (hvalue : ctx.OperandTyped op ty value false)
    (hcurrent : current.Kinded base layout kind) (hoperand : operand.Kinded base layout kind') :
    ∃ kind, ty.kind? = some kind ∧
      (combine op ty current operand).Kinded base layout kind := by
  cases hvalue with
  | number =>
    refine ⟨.num, rfl, ?_⟩
    cases op <;> exact .arith hcurrent hoperand
  | text => exact ⟨.text, rfl, .concat hcurrent hoperand⟩
  | suggestion => exact ⟨.suggestion, rfl, .merge hcurrent hoperand⟩

end Lower

namespace Locals

/-- The variables lie in slots of the kinds of their types, and no other slot has a kind. -/
structure Laid (locals : Locals) (layout : Layout) : Prop where
  lies : locals.Lies layout
  free : ∀ slot ∉ locals.slots, layout slot = none

variable {locals : Locals} {layout : Layout} {slot : Nat} {kind : Kind} {ty : Ty}

theorem Laid.enter (h : locals.Laid layout) : Laid (∅ :: locals) layout :=
  ⟨h.lies.enter, h.free⟩

theorem Laid.declare (h : locals.Laid layout) {name : String} (hkind : ty.kind? = some kind)
    (hfresh : slot ∉ locals.slots)
    (hperm : (locals.declare name ⟨slot, ty⟩).slots.Perm (slot :: locals.slots)) :
    (locals.declare name ⟨slot, ty⟩).Laid (layout.put slot kind) where
  lies := h.lies.declare name hkind (.inl (h.free slot hfresh))
  free other hother := by
    rw [hperm.mem_iff, List.mem_cons, not_or] at hother
    rw [Layout.put_of_ne hother.1, h.free other hother.2]

theorem Laid.insert {scope : Table String Local} {outer : Locals} {name : String}
    (h : Laid (scope :: outer) layout) (hname : name ∉ scope.keys) (hkind : ty.kind? = some kind)
    (hfresh : slot ∉ slots (scope :: outer)) :
    Laid (scope.insert name ⟨slot, ty⟩ :: outer) (layout.put slot kind) :=
  h.declare hkind hfresh (slots_insert hname)

end Locals

namespace Lower

/-- Slots of a frame of `count` slots that are left for variables and for scratch. -/
structure Room (count : Nat) (locals : Locals) (declared scratch : List Nat) : Prop where
  distinct : declared.Nodup
  fresh : ∀ slot ∈ declared, slot ∉ locals.slots
  known : ∀ slot ∈ locals.slots, slot < count
  below : ∀ slot ∈ declared ++ scratch, slot < count

namespace Room

variable {count : Nat} {locals after : Locals} {declared declared' scratch scratch' : List Nat}

theorem left (h : Room count locals (declared ++ declared') (scratch ++ scratch')) :
    Room count locals declared scratch where
  distinct := h.distinct.of_append_left
  fresh slot hmem := h.fresh slot (List.mem_append_left _ hmem)
  known := h.known
  below slot hmem := h.below slot <| by
    rcases List.mem_append.mp hmem with hmem | hmem <;> simp [hmem]

theorem enter (h : Room count locals declared scratch) : Room count (∅ :: locals) declared scratch :=
  ⟨h.distinct, h.fresh, h.known, h.below⟩

/-- What is left after some of it has been taken for variables. -/
theorem right (h : Room count locals (declared ++ declared') (scratch ++ scratch'))
    (hafter : ∀ slot ∈ after.slots, slot ∈ locals.slots ∨ slot ∈ declared) :
    Room count after declared' scratch' where
  distinct := h.distinct.of_append_right
  fresh slot hmem hslot := by
    rcases hafter slot hslot with hslot | hslot
    · exact h.fresh slot (List.mem_append_right _ hmem) hslot
    · exact (List.nodup_append'.mp h.distinct).2.2 hslot hmem
  known slot hmem := (hafter slot hmem).elim (h.known slot) fun hmem =>
    h.below slot (List.mem_append_left _ (List.mem_append_left _ hmem))
  below slot hmem := h.below slot <| by
    rcases List.mem_append.mp hmem with hmem | hmem <;> simp [hmem]

theorem insert {scope : Table String Local} {outer : Locals} {name : String} {found : Local}
    (h : Room count (scope :: outer) (found.slot :: declared) scratch) :
    Room count (scope.insert name found :: outer) declared scratch :=
  right (show Room count (scope :: outer) ([found.slot] ++ declared) ([] ++ scratch) from h)
    fun _ hmem => (Locals.mem_slots_insert hmem).symm.imp_right List.mem_singleton.mpr

end Room

variable {base : Kinds} {rooted : Bool} {ctx after : CheckContext} {fabrics : Fabrics}
variable {locals : Locals} {layout : Layout} {count : Nat} {ret : Kind}

/-- The right side of an assignment to a location of the type. -/
theorem Setting.assigned (h : Setting base rooted ctx fabrics locals layout) {target value : Expr}
    {ty : Ty} {kind : Kind} {code : Code} {span : Span}
    (htyped : ctx.StmtTyped (.assign target value span) after) (hty : target.ty? = some ty)
    (hkind : ty.kind? = some kind) (hdefinite : value.definite rooted)
    (hcode : value.Compiles fabrics locals code) : code.Kinded base layout kind := by
  cases htyped with
  | assign htarget _ hvalue =>
    cases htarget.ty?.symm.trans hty
    exact h.fits hvalue hkind hdefinite hcode

/-- The right side of an update of a location that is no container. -/
theorem updated {op : CompoundOp} {target value : Expr} {span : Span} {instr : Instr}
    {own : List Nat} (hturns : Turns fabrics locals (.compound op target value span) instr own)
    (htyped : ctx.StmtTyped (.compound op target value span) after)
    (hinstr : ∀ container content, instr ≠ .append container content ∧
      instr ≠ .remove container content) :
    ∃ ty, ctx.ExprTyped target ty ∧ Assignable target ∧ ctx.OperandTyped op ty value false := by
  cases htyped with
  | update htarget hassignable hvalue => exact ⟨_, htarget, hassignable, hvalue⟩
  | change htarget hvalue =>
    obtain ⟨container, content, hinstr' | hinstr'⟩ :=
      hturns.inPlace rfl htarget.ty? (by cases hvalue <;> rfl)
    · exact absurd hinstr' (hinstr container content).1
    · exact absurd hinstr' (hinstr container content).2

/-- A statement that has no blocks and declares nothing leaves the slots at their kinds. -/
theorem Turns.kinded {stmt : Stmt} {instr : Instr} {own : List Nat}
    (hturns : Turns fabrics locals stmt instr own) (htyped : ctx.StmtTyped stmt after)
    (hret : ctx.ret.kind? = some ret) (hdefinite : stmt.definite rooted)
    (h : Setting base rooted ctx fabrics locals layout) (hfree : ∀ slot ∉ locals.slots, layout slot = none)
    (hroom : Room count locals [] own) : instr.Kinded base count ret layout layout := by
  have hvariable : ∀ {path : Path} {found : Local} {kind : Kind} {code : Code},
      locals.ofPath? path = some found → found.ty.kind? = some kind →
      code.Kinded base layout kind →
      (Instr.store found.slot code).Kinded base count ret layout layout := by
    intro path found kind code hpath hkind hcode
    obtain ⟨_, hkind', hslot⟩ := h.lies.ofPath? hpath
    cases hkind.symm.trans hkind'
    have hstore : (Instr.store found.slot code).Kinded base count ret layout
        (layout.put found.slot kind) :=
      .store hcode (hroom.known _ (Locals.slot_mem_of_ofPath? hpath)) (.inr hslot)
    rwa [Layout.put_of_eq hslot] at hstore
  have hbecomes := hturns.becomes
  cases hbecomes with
  | setVariable hpath hnote hvalue =>
    rw [Stmt.definite, Bool.and_eq_true] at hdefinite
    obtain ⟨kind, hkind, -⟩ := h.lies.ofPath? hpath
    exact hvariable hpath hkind
      (h.assigned htyped (congrArg some hnote) hkind hdefinite.2 hvalue)
  | @setField target _ _ _ _ _ _ _ hform hmeaning hobject hvalue =>
    obtain ⟨note, form⟩ := target
    cases hform
    rw [Stmt.definite, Bool.and_eq_true] at hdefinite
    have hassign := htyped
    cases hassign with
    | assign htarget =>
      have hty := htarget.ty?
      obtain ⟨rfl, cls, hobjectTyped, hlookup⟩ := typed_field htarget rfl hmeaning
      obtain ⟨kind, hkind, hholds⟩ := h.surrounds.field hlookup
      exact .setField (.plain (h.stands hobjectTyped hdefinite.1 hobject).object) hholds
        (h.assigned htyped hty hkind hdefinite.2 hvalue)
  | @setElement target _ _ _ _ _ _ _ _ hform hby hobject hindex hvalue =>
    obtain ⟨note, form⟩ := target
    cases hform
    rw [Stmt.definite, Expr.definite, Form.definite, Bool.and_eq_true, Bool.and_eq_true] at hdefinite
    have hassign := htyped
    cases hassign with
    | assign htarget hassignable =>
      have hty := htarget.ty?
      obtain ⟨of, indexOf, kind, hkind, hindexed, hparts⟩ :=
        h.element htarget hassignable hby hdefinite.1.1 hdefinite.1.2
      obtain ⟨hobjectKinded, hindexKinded⟩ := hparts (.refl layout)
      exact .setIndex (.plain (hobjectKinded hobject)) (.plain (hindexKinded hindex)) hindexed
        (h.assigned htyped hty hkind hdefinite.2 hvalue)
  | append hty hcontainer htarget hvalue =>
    rw [Stmt.definite, Bool.and_eq_true] at hdefinite
    cases htyped with
    | update htargetTyped _ hoperand =>
      cases htargetTyped.ty?.symm.trans hty
      cases hoperand <;> cases hcontainer
    | change htargetTyped hoperand =>
      have hstands := h.stands htargetTyped hdefinite.1 htarget
      cases hoperand with
      | addToArray hfits =>
        cases hstands with
        | kinded hof htarget =>
          obtain ⟨kind, helement, rfl⟩ := Ty.kind?_array.mp hof
          exact .append htarget .array (h.fits hfits helement hdefinite.2 hvalue)
      | addToSet hfits =>
        cases hstands with
        | kinded hof htarget =>
          obtain ⟨kind, helement, rfl⟩ := Ty.kind?_set.mp hof
          exact .append htarget .set (h.fits hfits helement hdefinite.2 hvalue)
  | remove hty hcontainer htarget hvalue =>
    rw [Stmt.definite, Bool.and_eq_true] at hdefinite
    cases htyped with
    | update htargetTyped _ hoperand | change htargetTyped hoperand =>
      obtain ⟨_, htarget⟩ := (h.stands htargetTyped hdefinite.1 htarget).any
      obtain ⟨_, hvalue⟩ := h.operand hoperand hdefinite.2 hvalue
      exact .remove htarget hvalue
  | updateVariable hpath hnote hvalue =>
    rw [Stmt.definite, Bool.and_eq_true] at hdefinite
    obtain ⟨ty, htarget, -, hoperand⟩ := updated hturns htyped (fun _ _ => ⟨nofun, nofun⟩)
    obtain ⟨kind, hkind, hslot⟩ := h.lies.ofPath? hpath
    obtain ⟨_, hvalue⟩ := h.operand hoperand hdefinite.2 hvalue
    cases htarget.ty?
    obtain ⟨kind', hkind', hcombine⟩ := combine_kinded hoperand (.local hslot) hvalue
    exact hvariable hpath (hnote ▸ hkind') hcombine
  | @updateField _ target _ _ _ _ _ _ _ scratch _ hform hmeaning hty hobject hvalue hscratch =>
    obtain ⟨note, form⟩ := target
    cases hform
    rw [Stmt.definite, Bool.and_eq_true] at hdefinite
    obtain ⟨ty, htarget, -, hoperand⟩ := updated hturns htyped (fun _ _ => ⟨nofun, nofun⟩)
    cases htarget.ty?.symm.trans hty
    obtain ⟨rfl, cls, hobjectTyped, hlookup⟩ := typed_field htarget rfl hmeaning
    obtain ⟨kind, hkind, hholds⟩ := h.surrounds.field hlookup
    have hnone := hfree scratch hscratch
    have hkeeps : layout.Keeps (layout.put scratch .object) := Layout.Takes.keeps (.inl hnone)
    obtain ⟨_, hvalue⟩ := (h.keeps hkeeps).operand hoperand hdefinite.2 hvalue
    obtain ⟨_, hkind', hcombine⟩ :=
      combine_kinded hoperand (.getField (.local Layout.put_self) hholds hkind) hvalue
    cases hkind.symm.trans hkind'
    exact .setField (.tee (h.stands hobjectTyped hdefinite.1 hobject).object hnone
      (hroom.below scratch (by simp))) hholds hcombine
  | @updateElement _ target _ _ _ _ _ _ _ _ container key _ hform hby hty hobject hindex hvalue
      hcontainer hkey hne =>
    obtain ⟨note, form⟩ := target
    cases hform
    rw [Stmt.definite, Expr.definite, Form.definite, Bool.and_eq_true, Bool.and_eq_true] at hdefinite
    obtain ⟨ty, htarget, hassignable, hoperand⟩ := updated hturns htyped (fun _ _ => ⟨nofun, nofun⟩)
    cases htarget.ty?.symm.trans hty
    obtain ⟨of, indexOf, kind, hkind, hindexed, hparts⟩ :=
      h.element htarget hassignable hby hdefinite.1.1 hdefinite.1.2
    -- The container is kept while the index is evaluated, and both while the operand is.
    have hnone := hfree container hcontainer
    have hfirst : layout.Keeps (layout.put container of) := Layout.Takes.keeps (.inl hnone)
    have hnone' : (layout.put container of) key = none := by
      rw [Layout.put_of_ne hne.symm, hfree key hkey]
    have hsecond : (layout.put container of).Keeps ((layout.put container of).put key indexOf) :=
      Layout.Takes.keeps (.inl hnone')
    obtain ⟨_, hvalue⟩ := (h.keeps (hfirst.trans hsecond)).operand hoperand hdefinite.2 hvalue
    obtain ⟨_, hkind', hcombine⟩ := combine_kinded hoperand
      (.index (.local (hsecond _ _ Layout.put_self)) (.local Layout.put_self) hindexed hkind) hvalue
    cases hkind.symm.trans hkind'
    exact .setIndex (.tee ((hparts (.refl layout)).1 hobject) hnone (hroom.below container (by simp)))
      (.tee ((hparts hfirst).2 hindex) hnone' (hroom.below key (by simp))) hindexed hcombine
  | expr hcode =>
    cases htyped with
    | expr hexpr =>
      obtain ⟨_, hcode⟩ := (h.stands hexpr hdefinite hcode).any
      exact .eval hcode
  | returnNothing =>
    cases htyped with
    | returnNothing hvoid =>
      rw [hvoid] at hret
      cases hret
      exact .return (.null rfl)
  | returnValue hcode =>
    cases htyped with
    | returnValue hvalue => exact .return (h.fits hvalue hret hdefinite hcode)
  | «break» => exact .break
  | «continue» => exact .continue
  | extend hcode =>
    cases htyped with
    | extend htarget => exact .extend (h.stands htarget hdefinite hcode).object
  | retract hcode =>
    cases htyped with
    | retract htarget => exact .retract (h.stands htarget hdefinite hcode).object
  | enforce hcode =>
    cases htyped with
    | enforce hsuggestion => exact .enforce (h.fits hsuggestion rfl hdefinite hcode)

theorem Becomes.own_apart {stmt : Stmt} {instr : Instr} {own : List Nat}
    (h : Becomes fabrics locals stmt instr own) : ∀ slot ∈ own, slot ∉ locals.slots := by
  cases h with
  | updateField _ _ _ _ _ hscratch => simpa using hscratch
  | updateElement _ _ _ _ _ _ hcontainer hkey => simpa using ⟨hcontainer, hkey⟩
  | _ => nofun

theorem releaseOf_kinded {own : List Nat} (h : ∀ slot ∈ own, layout slot = none) :
    Instr.AllKinded base count ret layout (releaseOf own) layout := by
  cases own with
  | nil => exact .nil
  | cons slot rest => exact .cons (.release h) .nil

/-- The variable of a loop is of the kind that the loop binds. -/
theorem loopPlan_one {ty : Ty} {plan : LoopPlan} {iter : Expr} {code : Code}
    (hplan : ctx.loopPlan ty false = .ok plan) (hcode : code.Stands base layout iter ty) :
    ∃ of kind, code.Kinded base layout of ∧ of.Walked plan.kind false kind none ∧
      plan.first.kind? = some kind := by
  cases hcode with
  | null => cases hplan
  | kinded hof hcode =>
    cases ty with
    | text =>
      cases hplan
      cases hof
      exact ⟨.text, .text, hcode, .text, rfl⟩
    | array =>
      cases hplan
      obtain ⟨kind, helement, rfl⟩ := Ty.kind?_array.mp hof
      exact ⟨.array kind, kind, hcode, .array, helement⟩
    | set =>
      cases hplan
      obtain ⟨kind, helement, rfl⟩ := Ty.kind?_set.mp hof
      exact ⟨.set kind, kind, hcode, .set, helement⟩
    | map =>
      cases hplan
      obtain ⟨key, content, hkey, -, rfl⟩ := Ty.kind?_map.mp hof
      exact ⟨.map key content, key, hcode, .map, hkey⟩
    | _ => cases hplan

theorem loopPlan_two {ty : Ty} {plan : LoopPlan} {iter : Expr} {code : Code}
    (hplan : ctx.loopPlan ty true = .ok plan) (hcode : code.Stands base layout iter ty) :
    ∃ of kind kind', code.Kinded base layout of ∧ of.Walked plan.kind true kind (some kind') ∧
      plan.first.kind? = some kind ∧ ∀ ty ∈ plan.second, ty.kind? = some kind' := by
  cases hcode with
  | null => cases hplan
  | kinded hof hcode =>
    cases ty with
    | text =>
      cases hplan
      cases hof
      refine ⟨.text, .num, .text, hcode, .textPairs, rfl, ?_⟩
      rintro _ ⟨⟩
      rfl
    | array =>
      cases hplan
      obtain ⟨kind, helement, rfl⟩ := Ty.kind?_array.mp hof
      refine ⟨.array kind, .num, kind, hcode, .arrayPairs, rfl, ?_⟩
      rintro _ ⟨⟩
      exact helement
    | map =>
      cases hplan
      obtain ⟨key, content, hkey, hcontent, rfl⟩ := Ty.kind?_map.mp hof
      refine ⟨.map key content, key, content, hcode, .mapPairs, hkey, ?_⟩
      rintro _ ⟨⟩
      exact hcontent
    | _ => cases hplan

theorem loopVariables_ne {plan : LoopPlan} {key name : String} {ty : Ty} {types : Table String Ty}
    (hsecond : plan.second = some ty) (h : loopVariables plan key (some name) = .ok types) :
    name ≠ key := by
  simp only [loopVariables, hsecond] at h
  split at h
  case isTrue => cases h
  case isFalse hne => exact hne

/-- A variable gets a value of the kind of its type. -/
theorem store_kinded {code : Code} {name : String} {slot : Nat} {ty : Ty} {kind : Kind}
    (htypes : ctx.scopes = locals.types) (hdeclare : ctx.declare name ty = .ok after)
    (hkind : ty.kind? = some kind) (hcode : code.Kinded base layout kind)
    (hlaid : locals.Laid layout) (hroom : Room count locals [slot] []) :
    ∃ layout', Instr.AllKinded base count ret layout [.store slot code] layout' ∧
      (locals.declare name ⟨slot, ty⟩).Laid layout' := by
  have hfresh := hroom.fresh slot (List.mem_singleton_self slot)
  refine ⟨layout.put slot kind, .cons ?_ .nil, ?_⟩
  · exact .store hcode (hroom.below slot (by simp)) (.inl (hlaid.free slot hfresh))
  · exact hlaid.declare hkind hfresh (Locals.declare_spec hdeclare htypes slot).2

/-- The body of a loop is compiled with the variables of the loop in their slots. -/
def BodyKinded (base : Kinds) (count : Nat) (ret : Kind) (locals : Locals) (body : List Instr)
    (declared scratch : List Nat) : Prop :=
  ∀ layout, locals.Laid layout → Room count locals declared scratch →
    ∃ layout', Instr.AllKinded base count ret layout body layout'

theorem forOne_kinded {plan : LoopPlan} {key : String} {iter : Expr} {ty : Ty} {source : Code}
    {first : Nat} {body : List Instr} {declared scratch : List Nat}
    (hplan : ctx.loopPlan ty false = .ok plan) (hsource : source.Stands base layout iter ty)
    (hlaid : locals.Laid layout) (hroom : Room count locals (first :: declared) scratch)
    (hbody : BodyKinded base count ret ((∅ : Table String Local).insert key ⟨first, plan.first⟩ :: locals)
      body declared scratch) :
    ∃ layout', Instr.AllKinded base count ret layout
      [.forEach source plan.kind first none body] layout' ∧ locals.Laid layout' := by
  obtain ⟨of, kind, hsource, hwalked, hfirst⟩ := loopPlan_one hplan hsource
  have hfresh := hroom.fresh first List.mem_cons_self
  obtain ⟨_, hbody⟩ := hbody (layout.put first kind) (hlaid.enter.insert nofun hfirst hfresh)
    hroom.enter.insert
  exact ⟨layout, .cons (.forOne hsource hwalked (hroom.below first (by simp))
    (.inl (hlaid.free first hfresh)) hbody) .nil, hlaid⟩

theorem forTwo_kinded {plan : LoopPlan} {key name : String} {iter : Expr} {ty second : Ty}
    {source : Code} {slot slot' : Nat} {body : List Instr} {declared scratch : List Nat}
    (hplan : ctx.loopPlan ty true = .ok plan) (hsecond : plan.second = some second)
    (hne : name ≠ key) (hsource : source.Stands base layout iter ty) (hlaid : locals.Laid layout)
    (hroom : Room count locals (slot :: slot' :: declared) scratch)
    (hbody : BodyKinded base count ret
      (((∅ : Table String Local).insert key ⟨slot, plan.first⟩).insert name ⟨slot', second⟩ :: locals)
      body declared scratch) :
    ∃ layout', Instr.AllKinded base count ret layout
      [.forEach source plan.kind slot (some slot') body] layout' ∧ locals.Laid layout' := by
  obtain ⟨of, kind, kind', hsource, hwalked, hfirst, hkinds⟩ := loopPlan_two hplan hsource
  have hfresh := hroom.fresh slot List.mem_cons_self
  have hinner : Locals.Laid ((∅ : Table String Local).insert key ⟨slot, plan.first⟩ :: locals)
      (layout.put slot kind) := hlaid.enter.insert nofun hfirst hfresh
  have hroom' : Room count ((∅ : Table String Local).insert key ⟨slot, plan.first⟩ :: locals)
      (slot' :: declared) scratch := hroom.enter.insert
  have hfresh' := hroom'.fresh slot' List.mem_cons_self
  have hname : name ∉ ((∅ : Table String Local).insert key ⟨slot, plan.first⟩).keys :=
    fun hmem => hne (List.mem_singleton.mp hmem)
  obtain ⟨_, hbody⟩ := hbody _ (hinner.insert hname (hkinds second hsecond) hfresh') hroom'.insert
  exact ⟨layout, .cons (.forTwo hsource hwalked (hroom.below slot (by simp))
    (.inl (hlaid.free slot hfresh)) (hroom.below slot' (by simp)) (.inl (hinner.free slot' hfresh'))
    hbody) .nil, hlaid⟩

mutual

/-- The code of a definite statement keeps slots to their kinds. -/
theorem StmtPlaced.kinded : ∀ {ctx after : CheckContext} {locals locals' : Locals} {stmt : Stmt}
    {code : List Instr} {declared scratch : List Nat} {layout : Layout},
    StmtPlaced fabrics (Turns fabrics) ctx locals stmt code locals' declared scratch →
    ctx.StmtTyped stmt after → base.Surrounds rooted ctx fabrics → ctx.scopes = locals.types →
    ctx.ret.kind? = some ret → stmt.definite rooted → locals.Laid layout →
    Room count locals declared scratch →
    ∃ layout', Instr.AllKinded base count ret layout code layout' ∧ locals'.Laid layout'
  | ctx, _, _, _, _, _, _, _, _, .letValue hinit, .letInferred htyped _ hnull hdeclare, hctx, htypes,
      _, hdefinite, hlaid, hroom => by
    have hstands := Setting.stands ⟨hctx, htypes, hlaid.lies⟩ htyped hdefinite hinit
    cases hstands with
    | null => cases hnull
    | kinded hkind hcode => exact store_kinded htypes hdeclare hkind hcode hlaid hroom
  | ctx, _, _, _, _, _, _, _, _, .letValue hinit, .letDeclared hwritten hfits _ hdeclare, hctx, htypes,
      _, hdefinite, hlaid, hroom => by
    obtain ⟨kind, hkind⟩ := Ty.kind?_of_resolveType (mapError_eq_ok.mp hwritten)
    have hcode := Setting.fits ⟨hctx, htypes, hlaid.lies⟩ hfits hkind hdefinite hinit
    exact store_kinded htypes hdeclare hkind hcode hlaid hroom
  | ctx, _, _, _, _, _, _, _, _, .letDefault, .letDefault hwritten _ hdeclare, _, htypes, _, _, hlaid,
      hroom => by
    obtain ⟨kind, hkind⟩ := Ty.kind?_of_resolveType (mapError_eq_ok.mp hwritten)
    exact store_kinded htypes hdeclare hkind (.default hkind) hlaid hroom
  | _, _, _, _, _, _, _, _, layout, .flat hturns, htyped, hctx, htypes, hret, hdefinite, hlaid,
      hroom => by
    refine ⟨layout, .cons (hturns.kinded htyped hret hdefinite ⟨hctx, htypes, hlaid.lies⟩ hlaid.free
      hroom) (releaseOf_kinded fun slot hmem => ?_), hlaid⟩
    exact hlaid.free slot (hturns.becomes.own_apart slot hmem)
  | ctx, _, _, _, _, _, _, _, layout, .branch hcond hyes hno, .branch hfits _ _, hctx, htypes, hret,
      hdefinite, hlaid, hroom => by
    rw [Stmt.definite, Bool.and_eq_true, Bool.and_eq_true] at hdefinite
    have hcode := Setting.fits ⟨hctx, htypes, hlaid.lies⟩ hfits rfl hdefinite.1 hcond
    have hinner := hctx.scoped ctx.cls ctx.effects ctx.ret (∅ :: ctx.scopes) ctx.inLoop
    obtain ⟨_, hyes⟩ := BlockPlaced.kinded hyes hinner hret hdefinite.2.1 hlaid.enter hroom.left.enter
    obtain ⟨_, hno⟩ := BlockPlaced.kinded hno hinner hret hdefinite.2.2 hlaid.enter
      (hroom.right fun _ hmem => .inl hmem).enter
    exact ⟨layout, .cons (.branch hcode hyes hno) .nil, hlaid⟩
  | ctx, _, _, _, _, _, _, _, layout, .while hcond hbody, .while hfits _, hctx, htypes, hret,
      hdefinite, hlaid, hroom => by
    rw [Stmt.definite, Bool.and_eq_true] at hdefinite
    have hcode := Setting.fits ⟨hctx, htypes, hlaid.lies⟩ hfits rfl hdefinite.1 hcond
    have hinner := hctx.scoped ctx.cls ctx.effects ctx.ret (∅ :: ctx.scopes) true
    obtain ⟨_, hbody⟩ := BlockPlaced.kinded hbody hinner hret hdefinite.2 hlaid.enter hroom.enter
    exact ⟨layout, .cons (.while hcode hbody) .nil, hlaid⟩
  | ctx, _, _, _, _, _, _, _, layout, .forOne hiter hloop hbody, .for htyped _ hplan _ _, hctx, htypes,
      hret, hdefinite, hlaid, hroom => by
    rw [Stmt.definite, Bool.and_eq_true] at hdefinite
    subst hloop
    have hstands := Setting.stands ⟨hctx, htypes, hlaid.lies⟩ htyped hdefinite.1 hiter
    exact forOne_kinded hplan hstands hlaid hroom fun _ => BlockPlaced.kinded hbody
      (hctx.scoped ctx.cls ctx.effects ctx.ret (_ :: ctx.scopes) true) hret hdefinite.2
  | ctx, _, _, _, _, _, _, _, layout, .forTwo hiter hsecond hloop hbody, .for htyped _ hplan hvariables _,
      hctx, htypes, hret, hdefinite, hlaid, hroom => by
    rw [Stmt.definite, Bool.and_eq_true] at hdefinite
    subst hloop
    have hne := loopVariables_ne hsecond hvariables
    have hstands := Setting.stands ⟨hctx, htypes, hlaid.lies⟩ htyped hdefinite.1 hiter
    exact forTwo_kinded hplan hsecond hne hstands hlaid hroom fun _ => BlockPlaced.kinded hbody
      (hctx.scoped ctx.cls ctx.effects ctx.ret (_ :: ctx.scopes) true) hret hdefinite.2

theorem BlockPlaced.kinded : ∀ {ctx : CheckContext} {locals : Locals} {body : List Stmt}
    {code : List Instr} {declared scratch : List Nat} {layout : Layout},
    BlockPlaced fabrics (Turns fabrics) ctx locals body code declared scratch →
    base.Surrounds rooted ctx fabrics → ctx.ret.kind? = some ret → Stmt.allDefinite rooted body →
    locals.Laid layout → Room count locals declared scratch →
    ∃ layout', Instr.AllKinded base count ret layout code layout'
  | _, _, _, _, _, _, layout, .nil, _, _, _, _, _ => ⟨layout, .nil⟩
  | ctx, _, _, _, _, _, _, .cons htypes hnodup htyped hstmt hrest, hctx, hret, hdefinite, hlaid,
      hroom => by
    rw [Stmt.allDefinite, Bool.and_eq_true] at hdefinite
    obtain ⟨scopes, rfl⟩ := htyped.scoped
    obtain ⟨_, hcode, hafter⟩ := StmtPlaced.kinded hstmt htyped hctx htypes hret hdefinite.1 hlaid
      hroom.left
    obtain ⟨layout', hrest⟩ := BlockPlaced.kinded hrest
      (hctx.scoped ctx.cls ctx.effects ctx.ret scopes ctx.inLoop) hret hdefinite.2 hafter
      (hroom.right fun _ hmem => hstmt.mem_slots hmem)
    exact ⟨layout', hcode.append hrest⟩

end

/-- Parameters lie in the first slots. -/
theorem MethodPlaced.laid {flat : Locals → Stmt → Instr → List Nat → Prop} {cls : ClassId}
    {sig : MethodSig} {decl : MethodDecl} {code : List Instr} {params : Table String Local}
    {declared scratch : List Nat} {kinds : List Kind}
    (h : MethodPlaced fabrics flat ctx cls sig decl code count params declared scratch)
    (hvalues : ∀ found ∈ params.values, sig.params[found.slot]? = some found.ty)
    (hlength : decl.params.length = sig.params.length) (hkinds : Ty.kinds? sig.params = some kinds) :
    Locals.Laid [params] (.ofParams kinds) where
  lies name found hfound := by
    have hget : params.get? name = some found := by
      simp only [Locals.find?] at hfound
      split at hfound
      case h_1 hget => exact hget.trans hfound
      case h_2 => cases hfound
    exact Ty.kinds?_getElem? hkinds (hvalues found (Table.mem_values_of_get? hget))
  free slot hslot := by
    refine List.getElem?_eq_none_iff.mpr (Nat.le_of_not_lt fun hlt => hslot ?_)
    rw [Ty.kinds?_length hkinds, ← hlength] at hlt
    obtain ⟨ty, -, hget⟩ := h.param (List.getElem?_eq_getElem hlt)
    refine List.mem_append_left _ (List.mem_map.mpr ⟨⟨slot, ty⟩, ?_, rfl⟩)
    exact Table.mem_values_of_get? hget

theorem MethodPlaced.room {flat : Locals → Stmt → Instr → List Nat → Prop} {cls : ClassId}
    {sig : MethodSig} {decl : MethodDecl} {code : List Instr} {params : Table String Local}
    {declared scratch : List Nat}
    (h : MethodPlaced fabrics flat ctx cls sig decl code count params declared scratch)
    (hvalues : ∀ found ∈ params.values, sig.params[found.slot]? = some found.ty)
    (hlength : decl.params.length = sig.params.length) :
    Room count [params] declared scratch := by
  have hknown : ∀ slot ∈ Locals.slots [params], slot ∈ List.range decl.params.length := by
    intro slot hmem
    simp only [Locals.slots, List.flatMap_cons, List.flatMap_nil, List.append_nil,
      List.mem_map] at hmem
    obtain ⟨found, hfound, rfl⟩ := hmem
    rw [List.mem_range, hlength]
    exact (List.getElem?_eq_some_iff.mp (hvalues found hfound)).1
  refine ⟨h.distinct.of_append_right, fun slot hmem hslot => ?_, fun slot hmem => ?_,
    fun slot hmem => ?_⟩
  · exact (List.nodup_append'.mp h.distinct).2.2 (hknown slot hslot) hmem
  · exact h.below slot (by simp [List.mem_range.mp (hknown slot hmem)])
  · refine h.below slot ?_
    rcases List.mem_append.mp hmem with hmem | hmem <;> simp [hmem]

/-- A definite method compiles to a routine of the kinds of its contract. -/
theorem lowerMethod_kinded (hctx : base.Surrounds rooted ctx fabrics) {cls : ClassId}
    {sig : MethodSig} {decl answer : MethodDecl} {params : List Kind} (className : String)
    (hlength : decl.params.length = sig.params.length) (h : ctx.checkMethod cls sig decl = .ok answer)
    (hdefinite : Stmt.allDefinite rooted decl.body) (hparams : Ty.kinds? sig.params = some params)
    (hret : sig.ret.kind? = some ret) :
    ∃ routine, lowerMethod fabrics className sig answer = .ok routine ∧
      routine.Kinded base params ret := by
  obtain ⟨body, count, table, declared, scratch, hroutine, hplaced, hvalues⟩ :=
    lowerMethod_turns className hctx.provides hlength h
  refine ⟨_, hroutine, (Ty.kinds?_length hparams).symm, hret, ?_⟩
  rw [← checkMethod_definite h] at hdefinite
  obtain ⟨_, answerBody, -, rfl, -⟩ := checkMethod_sound h
  have harity : sig.params.length ≤ count := by
    refine Nat.le_of_not_lt fun hlt => ?_
    rw [← hlength] at hlt
    exact Nat.lt_irrefl count (hplaced.below count (by simp [hlt]))
  have hcount : max count sig.params.length = count := Nat.max_eq_left harity
  dsimp only
  rw [hcount]
  exact hplaced.block.kinded (hctx.scoped cls (Effects.ofSig sig) sig.ret _ false) hret hdefinite
    (hplaced.laid hvalues hlength hparams) (hplaced.room hvalues hlength)

/-- A definite initializer compiles to a routine that answers values of the kind of its field. -/
theorem lowerInitializer_kinded (hctx : base.Surrounds rooted ctx fabrics) {cls : ClassId} {ty : Ty}
    {decl answer : FieldDecl} {kind : Kind} (className : String)
    (h : ctx.checkInitializer cls ty decl = .ok answer)
    (hdefinite : decl.init.all (Expr.definite rooted)) (hkind : ty.kind? = some kind) :
    ∃ routine, lowerInitializer fabrics className answer ty = .ok routine ∧
      routine.Kinded base [] kind := by
  obtain ⟨code, hroutine, -, hcompiles⟩ := lowerInitializer_placed className hctx.provides h
  refine ⟨_, hroutine, rfl, hkind, .ofParams [], .cons (.return ?_) .nil⟩
  rw [← checkInitializer_definite h] at hdefinite
  obtain ⟨init, rfl, hinit⟩ := checkInitializer_sound h
  cases init with
  | none =>
    have hdefault : lowerInitializer fabrics className { decl with init := none } ty =
        .ok ⟨className ++ "." ++ decl.name, 0, 0, ty, [.return (.default ty true)]⟩ := rfl
    cases hdefault.symm.trans hroutine
    exact .default hkind
  | some init =>
    have hsetting : Setting base rooted (ctx.initializing cls ty) fabrics [∅] (.ofParams []) :=
      ⟨hctx.scoped cls {} ty [∅] false, rfl, nofun⟩
    exact hsetting.fits (hinit init rfl) hkind hdefinite (hcompiles init rfl)

end Lower

end Attire
