import Attire.Proofs.Classes.Recomposition
import Attire.Proofs.Typing.Resolution
import Attire.Typing.Expr

namespace Attire

/-! The checker judges expressions alike, whatever the numbers of the classes and modules are. -/

variable {same : ClassId → ClassId → Prop} {alike : ModuleId → ModuleId → Prop}

/-- The classes and names that bodies are checked against. -/
structure CheckContext.Surrounds (same : ClassId → ClassId → Prop)
    (alike : ModuleId → ModuleId → Prop) (ctx ctx' : CheckContext) : Prop where
  classes : ctx.classes.Matches same ctx'.classes
  names : ctx.names.Matches same alike ctx'.names
  rootClass : Option.Rel same ctx.rootClass ctx'.rootClass
  clonableClass : Option.Rel same ctx.clonableClass ctx'.clonableClass

structure CheckContext.Matches (same : ClassId → ClassId → Prop)
    (alike : ModuleId → ModuleId → Prop) (ctx ctx' : CheckContext) : Prop
    extends ctx.Surrounds same alike ctx' where
  cls : same ctx.cls ctx'.cls
  effects : ctx.effects = ctx'.effects
  ret : ctx.ret.Matches same ctx'.ret
  scopes : List.Forall₂ (Table.Pairs (Ty.Matches same)) ctx.scopes ctx'.scopes
  inLoop : ctx.inLoop = ctx'.inLoop

def Meaning.isFabric : Option Meaning → Bool
  | some (.fabric _) => true
  | _ => false

/-- Forms other than `this`, names and members. -/
def Form.isPlain : Form → Bool
  | .this | .name _ | .field .. | .index .. => false
  | _ => true

/-- Checked expressions of matching types that denote the same kind of location. -/
inductive Expr.Matches (same : ClassId → ClassId → Prop) : Expr → Expr → Prop
  | this {ty ty' : Ty} {meaning meaning' : Option Meaning} (hty : ty.Matches same ty') :
      Matches same (.mk (some ⟨ty, meaning⟩) .this) (.mk (some ⟨ty', meaning'⟩) .this)
  | name {ty ty' : Ty} {meaning meaning' : Option Meaning} {path : Path}
      (hty : ty.Matches same ty') (hmeaning : Meaning.isFabric meaning = Meaning.isFabric meaning') :
      Matches same (.mk (some ⟨ty, meaning⟩) (.name path)) (.mk (some ⟨ty', meaning'⟩) (.name path))
  | field {ty ty' : Ty} {meaning meaning' : Option Meaning} {object object' : Expr} {name : String}
      (hty : ty.Matches same ty') (h : Matches same object object') :
      Matches same (.mk (some ⟨ty, meaning⟩) (.field object name))
        (.mk (some ⟨ty', meaning'⟩) (.field object' name))
  | index {ty ty' : Ty} {meaning meaning' : Option Meaning} {object object' index index' : Expr}
      (hty : ty.Matches same ty') (h : Matches same object object') :
      Matches same (.mk (some ⟨ty, meaning⟩) (.index object index))
        (.mk (some ⟨ty', meaning'⟩) (.index object' index'))
  | plain {ty ty' : Ty} {meaning meaning' : Option Meaning} {form form' : Form}
      (hty : ty.Matches same ty') (h : form.isPlain) (h' : form'.isPlain) :
      Matches same (.mk (some ⟨ty, meaning⟩) form) (.mk (some ⟨ty', meaning'⟩) form')

structure Checked.Matches (same : ClassId → ClassId → Prop) (checked checked' : Checked) : Prop where
  ty : checked.1.Matches same checked'.1
  expr : checked.2.Matches same checked'.2

namespace Expr.Matches

variable {expr expr' : Expr}

theorem ty? (h : expr.Matches same expr') : Option.Rel (Ty.Matches same) expr.ty? expr'.ty? := by
  cases h <;> exact .some ‹_›

theorem isChainRoot_eq (h : expr.Matches same expr') : expr.isChainRoot = expr'.isChainRoot := by
  cases h with
  | plain hty h h' =>
    have hplain : ∀ {note : Option Note} {form : Form}, form.isPlain →
        (Expr.mk note form).isChainRoot = false := by
      intro note form hform
      cases form <;> first | rfl | cases hform
    rw [hplain h, hplain h']
  | _ => rfl

end Expr.Matches

theorem needValue_agree {result result' : Except CheckCause Checked}
    (h : Agree (Checked.Matches same) result result') :
    Agree (Checked.Matches same) (needValue result) (needValue result') := by
  refine h.bind ?_
  rintro ⟨ty, expr⟩ ⟨ty', expr'⟩ hchecked
  dsimp only
  rw [hchecked.ty.isValue_eq]
  split
  · exact .ok hchecked
  · exact .error _

theorem CheckContext.countArgs_agree {sig sig' : MethodSig} (h : sig.Matches same sig')
    (args : List Expr) :
    Agree Eq (countArgs sig args) (countArgs sig' args) := by
  simp only [countArgs, h.name, h.params.length_eq]
  exact .of_eq rfl

theorem MethodSig.Matches.callRequirement_eq {sig sig' : MethodSig} (h : sig.Matches same sig')
    {place : Place} : callRequirement sig place = callRequirement sig' place := by
  simp only [callRequirement, h.mutating, h.mutatingThis]

namespace CheckContext.Matches

variable {ctx ctx' : CheckContext} (h : ctx.Matches same alike ctx')
include h

theorem describe_eq {ty ty' : Ty} (hty : ty.Matches same ty') : ctx.describe ty = ctx'.describe ty' :=
  h.classes.describe_eq hty

theorem mismatch_eq {expected expected' actual actual' : Ty}
    (hexpected : expected.Matches same expected') (hactual : actual.Matches same actual') :
    ctx.mismatch expected actual = ctx'.mismatch expected' actual' := by
  simp only [mismatch, h.describe_eq hexpected, h.describe_eq hactual]

theorem accepts_eq {expected expected' actual actual' : Ty}
    (hexpected : expected.Matches same expected') (hactual : actual.Matches same actual') :
    ctx.accepts expected actual = ctx'.accepts expected' actual' :=
  h.classes.hierarchy.relates_eq hactual hexpected

theorem castable_eq {source source' target target' : Ty} (hsource : source.Matches same source')
    (htarget : target.Matches same target') :
    ctx.castable source target = ctx'.castable source' target' :=
  h.classes.hierarchy.relates_eq hsource htarget

theorem comparable_eq {l l' r r' : Ty} (hl : l.Matches same l') (hr : r.Matches same r') :
    l.comparable r ctx.classes.hierarchy = l'.comparable r' ctx'.classes.hierarchy := by
  have hclasses := h.classes.hierarchy
  simp only [Ty.comparable, hl.isValue_eq, hr.isValue_eq, hl.isObject_eq, hr.isObject_eq,
    hclasses.relates_eq hl hr, hclasses.relates_eq hr hl]

theorem isClonable_eq {ty ty' : Ty} (hty : ty.Matches same ty') :
    ctx.isClonable ty = ctx'.isClonable ty' := by
  cases hty with
  | object hcls =>
    simp only [isClonable]
    obtain ⟨hnone, hnone'⟩ | ⟨_, _, hsome, hsome', hclonable⟩ := rel_cases h.clonableClass
    · rw [hnone, hnone']
      rfl
    · rw [hsome, hsome']
      exact h.classes.hierarchy.isSubclass hcls hclonable
  | _ => rfl

theorem nameOf_eq {cls cls' : ClassId} (hcls : same cls cls') : ctx.nameOf cls = ctx'.nameOf cls' := by
  obtain ⟨found, found', hget, hget', hfound⟩ := h.classes.get? hcls
  simp only [nameOf, hget, hget', Option.map_some, Option.getD_some, hfound.name]

theorem local?_rel (name : String) : Option.Rel (Ty.Matches same) (ctx.local? name)
    (ctx'.local? name) := by
  have hfind : ∀ {scopes scopes' : List (Table String Ty)},
      List.Forall₂ (Table.Pairs (Ty.Matches same)) scopes scopes' →
      Option.Rel (Ty.Matches same) (findLocal name scopes) (findLocal name scopes') := by
    intro scopes scopes' hscopes
    induction hscopes with
    | nil => exact .none
    | cons hscope _ ih =>
      obtain ⟨hnone, hnone'⟩ | ⟨ty, ty', hsome, hsome', hty⟩ :=
        rel_cases (hscope.get? Table.biUnique_eq (rfl : name = name))
      · simpa only [findLocal, hnone, hnone'] using ih
      · simpa only [findLocal, hsome, hsome'] using .some hty
  exact hfind h.scopes

theorem localOfPath?_rel (path : Path) : Option.Rel (Ty.Matches same) (ctx.localOfPath? path)
    (ctx'.localOfPath? path) := by
  cases path with
  | nil => exact .none
  | cons name rest =>
    cases rest with
    | nil => exact h.local?_rel name
    | cons => exact .none

theorem placeOf_eq {expr expr' : Expr} (hexpr : expr.Matches same expr') :
    ctx.placeOf expr = ctx'.placeOf expr' := by
  induction hexpr with
  | this => rfl
  | @name ty ty' meaning meaning' path hty hmeaning =>
    have hother : ∀ {meaning meaning' : Option Meaning},
        Meaning.isFabric meaning = Meaning.isFabric meaning' →
        (match meaning with
          | some (.fabric _) => (⟨.fabric path.text, false⟩ : Place)
          | _ => ⟨.other, false⟩) =
        match meaning' with
          | some (.fabric _) => ⟨.fabric path.text, false⟩
          | _ => ⟨.other, false⟩ := by
      intro meaning meaning' heq
      rcases meaning with _ | _ | _ <;> rcases meaning' with _ | _ | _ <;>
        first | rfl | cases heq
    simp only [placeOf, isSome_eq (h.localOfPath?_rel path)]
    split
    · rfl
    · exact hother hmeaning
  | field _ hobject ih => simp only [placeOf, ih, hobject.isChainRoot_eq]
  | index _ _ ih => simpa only [placeOf] using ih
  | plain _ hplain hplain' =>
    have hother : ∀ {ctx : CheckContext} {note : Option Note} {form : Form}, form.isPlain →
        ctx.placeOf (.mk note form) = ⟨.other, false⟩ := by
      intro ctx note form hform
      cases form <;> first | rfl | cases hform
    rw [hother hplain, hother hplain']

theorem receiverPlace_eq {expr expr' : Expr} (hexpr : expr.Matches same expr') :
    ctx.receiverPlace expr = ctx'.receiverPlace expr' := by
  simp only [receiverPlace, h.placeOf_eq hexpr, hexpr.isChainRoot_eq]

theorem require_agree (requirement : Requirement) (action : String) :
    Agree Eq (ctx.require requirement action) (ctx'.require requirement action) :=
  .of_eq (by simp only [require, h.effects])

theorem resolveClass_agree (path : Path) :
    Agree same (ctx.resolveClass path) (ctx'.resolveClass path) :=
  (h.names.resolveClass_agree path).mapError

theorem resolveType_agree (ty : TypeExpr) :
    Agree (Ty.Matches same) (ctx.resolveType ty) (ctx'.resolveType ty) :=
  (h.names.resolveType_agree ty).mapError

theorem objectClass_agree {ty ty' : Ty} (hty : ty.Matches same ty') (member : String) :
    Agree same (ctx.objectClass ty member) (ctx'.objectClass ty' member) := by
  have hdescribe := h.describe_eq hty
  cases hty with
  | object hcls => exact .ok hcls
  | _ =>
    simp only [objectClass, hdescribe]
    exact .error _

theorem lookupMethod_agree {cls cls' : ClassId} (hcls : same cls cls') (name : String) :
    Agree (MethodSig.Matches same) (ctx.lookupMethod cls name) (ctx'.lookupMethod cls' name) := by
  obtain ⟨found, found', hget, hget', hfound⟩ := h.classes.get? hcls
  simp only [lookupMethod, hget, hget', Option.bind_some, h.nameOf_eq hcls]
  obtain ⟨hnone, hnone'⟩ | ⟨entry, entry', hsome, hsome', hentry⟩ :=
    rel_cases (hfound.methods.get? Table.biUnique_eq (rfl : name = name))
  · rw [hnone, hnone']
    exact .error _
  · rw [hsome, hsome']
    cases hentry with
    | member hsig => exact .ok hsig
    | conflict => exact .error _

theorem lookupField_agree {cls cls' : ClassId} (hcls : same cls cls') (name : String) :
    Agree (FieldInfo.Matches same) (ctx.lookupField cls name) (ctx'.lookupField cls' name) := by
  obtain ⟨found, found', hget, hget', hfound⟩ := h.classes.get? hcls
  have hmethod : (found.method? name).isSome = (found'.method? name).isSome := by
    unfold ClassDef.method?
    obtain ⟨hnone, hnone'⟩ | ⟨entry, entry', hsome, hsome', hentry⟩ :=
      rel_cases (hfound.methods.get? Table.biUnique_eq (rfl : name = name))
    · rw [hnone, hnone']
    · rw [hsome, hsome']
      cases hentry <;> rfl
  simp only [lookupField, hget, hget', Option.bind_some, h.nameOf_eq hcls, hmethod]
  obtain ⟨hnone, hnone'⟩ | ⟨entry, entry', hsome, hsome', hentry⟩ :=
    rel_cases (hfound.fields.get? Table.biUnique_eq (rfl : name = name))
  · rw [hnone, hnone']
    dsimp only
    split <;> exact .error _
  · rw [hsome, hsome']
    cases hentry with
    | member hinfo => exact .ok hinfo
    | conflict => exact .error _

theorem lookupSuper_agree (name : String) {parents parents' : List ClassId}
    (hparents : List.Forall₂ same parents parents') :
    Agree (fun found found' => same found.1 found'.1 ∧ found.2.Matches same found'.2)
      (ctx.lookupSuper name parents) (ctx'.lookupSuper name parents') := by
  induction hparents with
  | nil =>
    simp only [lookupSuper, h.nameOf_eq h.cls]
    exact .error _
  | cons hparent _ ih =>
    obtain ⟨found, found', hget, hget', hfound⟩ := h.classes.get? hparent
    simp only [lookupSuper, hget, hget', Option.bind_some, h.nameOf_eq hparent]
    obtain ⟨hnone, hnone'⟩ | ⟨entry, entry', hsome, hsome', hentry⟩ :=
      rel_cases (hfound.methods.get? Table.biUnique_eq (rfl : name = name))
    · rw [hnone, hnone']
      exact ih
    · rw [hsome, hsome']
      cases hentry with
      | member hsig => exact .ok ⟨hparent, hsig⟩
      | conflict => exact .error _

theorem need_agree {expected expected' : Ty} (hexpected : expected.Matches same expected')
    {result result' : Except CheckCause Checked}
    (hresult : Agree (Checked.Matches same) result result') :
    Agree (Expr.Matches same) (ctx.need expected result) (ctx'.need expected' result') := by
  refine (needValue_agree hresult).bind ?_
  rintro ⟨ty, expr⟩ ⟨ty', expr'⟩ hchecked
  dsimp only
  rw [h.accepts_eq hexpected hchecked.ty, h.mismatch_eq hexpected hchecked.ty]
  split
  · exact .ok hchecked.expr
  · exact .error _

theorem checkBinary_agree (op : BinaryOp) {l l' r r' : Ty} (hl : l.Matches same l')
    (hr : r.Matches same r') :
    Agree (Ty.Matches same) (ctx.checkBinary op l r) (ctx'.checkBinary op l' r') := by
  have hdescribe := h.describe_eq hl
  have hdescribe' := h.describe_eq hr
  have hcastable := h.castable_eq hl .text
  have hcastable' := h.castable_eq hr .text
  have hcomparable := h.comparable_eq hl hr
  unfold checkBinary
  rw [hdescribe, hdescribe']
  cases op with
  | add =>
    dsimp only
    cases hl with
    | num =>
      cases hr with
      | num => exact .ok .num
      | text =>
        dsimp only
        rw [hcastable]
        split
        · exact .ok .text
        · exact .error _
      | _ => exact .error _
    | text =>
      cases hr <;>
      · dsimp only
        rw [hcastable']
        split
        · exact .ok .text
        · exact .error _
    | _ =>
      cases hr with
      | text =>
        dsimp only
        rw [hcastable]
        split
        · exact .ok .text
        · exact .error _
      | _ => exact .error _
  | eq | ne =>
    dsimp only
    rw [hcomparable]
    split
    · exact .ok .bool
    · exact .error _
  | sub | mul | div | rem =>
    dsimp only
    cases hl with
    | num =>
      cases hr with
      | num => exact .ok .num
      | _ => exact .error _
    | _ => exact .error _
  | lt | le | gt | ge =>
    cases hl with
    | num =>
      cases hr with
      | num => exact .ok .bool
      | _ => exact .error _
    | text =>
      cases hr with
      | text => exact .ok .bool
      | _ => exact .error _
    | _ => exact .error _
  | and | or =>
    cases hl with
    | bool =>
      cases hr with
      | bool => exact .ok .bool
      | _ => exact .error _
    | _ => exact .error _

theorem commonType_agree {types types' : List Ty}
    (htypes : List.Forall₂ (Ty.Matches same) types types') :
    Agree (Ty.Matches same) (ctx.commonType types) (ctx'.commonType types') := by
  have hunique := h.classes.unique
  unfold commonType
  obtain ⟨hnone, hnone'⟩ | ⟨common, common', hsome, hsome', hcommon⟩ :=
    rel_cases (find?_rel htypes fun _ _ hty => congrArg not (hty.same_eq hunique .null))
  · rw [hnone, hnone']
    exact .error _
  · rw [hsome, hsome']
    dsimp only
    have hfits : ∀ ty ty' : Ty, ty.Matches same ty' →
        (ty.same common || (ty.same .null && common.isNullable)) =
          (ty'.same common' || (ty'.same .null && common'.isNullable)) := by
      intro ty ty' hty
      rw [hty.same_eq hunique hcommon, hty.same_eq hunique .null, hcommon.isNullable_eq]
    obtain ⟨hnone, hnone'⟩ | ⟨other, other', hsome, hsome', hother⟩ :=
      rel_cases (find?_rel htypes fun _ _ hty => congrArg not (hfits _ _ hty))
    · rw [hnone, hnone']
      exact .ok hcommon
    · rw [hsome, hsome']
      dsimp only
      rw [h.describe_eq hcommon, h.describe_eq hother]
      exact .error _

/-- The checker judges the expression alike in both contexts. -/
def Judges (same : ClassId → ClassId → Prop) (ctx ctx' : CheckContext) (expr : Expr) : Prop :=
  Agree (Checked.Matches same) (ctx.checkExpr expr) (ctx'.checkExpr expr)

variable {note : Option Note}

theorem name (path : Path) : Judges same ctx ctx' (.mk note (.name path)) := by
  simp only [Judges, checkExpr, checkForm]
  obtain ⟨hnone, hnone'⟩ | ⟨ty, ty', hsome, hsome', hty⟩ := rel_cases (h.localOfPath?_rel path)
  · rw [hnone, hnone']
    refine (h.names.resolve_agree path).mapError.bind ?_
    rintro _ _ ⟨⟩
    case fabric => exact .ok ⟨.array .text, .name (.array .text) rfl⟩
    all_goals exact .error _
  · rw [hsome, hsome']
    exact .ok ⟨hty, .name hty rfl⟩

theorem field {object : Expr} (hobject : Judges same ctx ctx' object) (name : String) :
    Judges same ctx ctx' (.mk note (.field object name)) := by
  simp only [Judges, checkExpr, checkForm]
  refine (needValue_agree hobject).bind fun object object' hobject => ?_
  refine (h.objectClass_agree hobject.ty name).bind fun cls cls' hcls => ?_
  refine (h.lookupField_agree hcls name).bind fun info info' hinfo => ?_
  exact .ok ⟨hinfo.ty, .field hinfo.ty hobject.expr⟩

theorem index {object index : Expr} (hobject : Judges same ctx ctx' object)
    (hindex : Judges same ctx ctx' index) :
    Judges same ctx ctx' (.mk note (.index object index)) := by
  simp only [Judges, checkExpr, checkForm]
  refine (needValue_agree hobject).bind ?_
  rintro ⟨ty, object⟩ ⟨ty', object'⟩ ⟨hty, hobject⟩
  dsimp only at hty hobject ⊢
  have hdescribe := h.describe_eq hty
  cases hty with
  | array helement =>
    exact (h.need_agree .num hindex).bind fun _ _ _ => .ok ⟨helement, .index helement hobject⟩
  | text => exact (h.need_agree .num hindex).bind fun _ _ _ => .ok ⟨.text, .index .text hobject⟩
  | map hkey hvalue =>
    exact (h.need_agree hkey hindex).bind fun _ _ _ => .ok ⟨hvalue, .index hvalue hobject⟩
  | tuple helements =>
    dsimp only
    rw [helements.length_eq]
    split
    case h_1 position _ =>
      have helement := getD_rel helements Ty.Matches.void position
      exact hindex.bind fun _ _ _ => .ok ⟨helement, .index helement hobject⟩
    case h_2 => exact .error _
  | _ =>
    dsimp only
    rw [hdescribe]
    exact .error _

theorem new (ty : TypeExpr) : Judges same ctx ctx' (.mk note (.new ty)) := by
  simp only [Judges, checkExpr, checkForm]
  refine (h.resolveType_agree ty).bind fun ty ty' hty => ?_
  have hdescribe := h.describe_eq hty
  cases hty with
  | object hcls => exact .ok ⟨.object hcls, .plain (.object hcls) rfl rfl⟩
  | array helement => exact .ok ⟨.array helement, .plain (.array helement) rfl rfl⟩
  | map hkey hvalue => exact .ok ⟨.map hkey hvalue, .plain (.map hkey hvalue) rfl rfl⟩
  | set helement => exact .ok ⟨.set helement, .plain (.set helement) rfl rfl⟩
  | _ =>
    dsimp only
    rw [hdescribe]
    exact .error _

theorem binary (op : BinaryOp) {left right : Expr} (hleft : Judges same ctx ctx' left)
    (hright : Judges same ctx ctx' right) :
    Judges same ctx ctx' (.mk note (.binary op left right)) := by
  simp only [Judges, checkExpr, checkForm]
  refine (needValue_agree hleft).bind fun left left' hleft => ?_
  refine (needValue_agree hright).bind fun right right' hright => ?_
  refine (h.checkBinary_agree op hleft.ty hright.ty).bind fun ty ty' hty => ?_
  exact .ok ⟨hty, .plain hty rfl rfl⟩

theorem unary (op : UnaryOp) {operand : Expr} (hoperand : Judges same ctx ctx' operand) :
    Judges same ctx ctx' (.mk note (.unary op operand)) := by
  simp only [Judges, checkExpr, checkForm]
  cases op with
  | neg => exact (h.need_agree .num hoperand).bind fun _ _ _ => .ok ⟨.num, .plain .num rfl rfl⟩
  | not => exact (h.need_agree .bool hoperand).bind fun _ _ _ => .ok ⟨.bool, .plain .bool rfl rfl⟩

theorem cast {value : Expr} (hvalue : Judges same ctx ctx' value) (ty : TypeExpr) :
    Judges same ctx ctx' (.mk note (.cast value ty)) := by
  simp only [Judges, checkExpr, checkForm]
  refine (needValue_agree hvalue).bind ?_
  rintro ⟨source, value⟩ ⟨source', value'⟩ ⟨hsource, hvalue⟩
  refine (h.resolveType_agree ty).bind fun target target' htarget => ?_
  dsimp only at hsource ⊢
  rw [h.castable_eq hsource htarget, h.describe_eq hsource, h.describe_eq htarget]
  split
  · exact .ok ⟨htarget, .plain htarget rfl rfl⟩
  · exact .error _

theorem clone {value : Expr} (hvalue : Judges same ctx ctx' value) :
    Judges same ctx ctx' (.mk note (.clone value)) := by
  simp only [Judges, checkExpr, checkForm]
  refine (needValue_agree hvalue).bind ?_
  rintro ⟨ty, value⟩ ⟨ty', value'⟩ ⟨hty, hvalue⟩
  dsimp only at hty ⊢
  rw [h.isClonable_eq hty, h.describe_eq hty]
  split
  · exact .ok ⟨hty, .plain hty rfl rfl⟩
  · exact .error _

theorem len {value : Expr} (hvalue : Judges same ctx ctx' value) :
    Judges same ctx ctx' (.mk note (.len value)) := by
  simp only [Judges, checkExpr, checkForm]
  refine (needValue_agree hvalue).bind ?_
  rintro ⟨ty, value⟩ ⟨ty', value'⟩ ⟨hty, hvalue⟩
  dsimp only at hty ⊢
  have hdescribe := h.describe_eq hty
  cases hty with
  | text | array | map | set => exact .ok ⟨.num, .plain .num rfl rfl⟩
  | _ =>
    dsimp only
    rw [hdescribe]
    exact .error _

theorem has {collection key : Expr} (hcollection : Judges same ctx ctx' collection)
    (hkey : Judges same ctx ctx' key) :
    Judges same ctx ctx' (.mk note (.has collection key)) := by
  simp only [Judges, checkExpr, checkForm]
  refine (needValue_agree hcollection).bind ?_
  rintro ⟨ty, collection⟩ ⟨ty', collection'⟩ ⟨hty, hcollection⟩
  dsimp only at hty ⊢
  have hdescribe := h.describe_eq hty
  cases hty with
  | map hkeyTy | set hkeyTy =>
    exact (h.need_agree hkeyTy hkey).bind fun _ _ _ => .ok ⟨.bool, .plain .bool rfl rfl⟩
  | _ =>
    dsimp only
    rw [hdescribe]
    exact .error _

theorem is {value : Expr} (hvalue : Judges same ctx ctx' value) (path : Path) :
    Judges same ctx ctx' (.mk note (.is value path)) := by
  simp only [Judges, checkExpr, checkForm]
  refine (needValue_agree hvalue).bind fun value value' hvalue => ?_
  refine (h.objectClass_agree hvalue.ty "is").bind fun _ _ _ => ?_
  exact (h.resolveClass_agree path).bind fun _ _ _ => .ok ⟨.bool, .plain .bool rfl rfl⟩

theorem caller : Judges same ctx ctx' (.mk note .caller) := by
  have hty : Ty.Matches same ((ctx.rootClass.map Ty.object).getD .null)
      ((ctx'.rootClass.map Ty.object).getD .null) := by
    obtain ⟨hnone, hnone'⟩ | ⟨root, root', hsome, hsome', hroot⟩ := rel_cases h.rootClass
    · rw [hnone, hnone']
      exact .null
    · rw [hsome, hsome']
      exact .object hroot
  exact .ok ⟨hty, .plain hty rfl rfl⟩

omit h

mutual

theorem judges (h : ctx.Matches same alike ctx') : ∀ expr : Expr, Judges same ctx ctx' expr
  | .mk _ (.num _) => .ok ⟨.num, .plain .num rfl rfl⟩
  | .mk _ (.text _) => .ok ⟨.text, .plain .text rfl rfl⟩
  | .mk _ (.bool _) => .ok ⟨.bool, .plain .bool rfl rfl⟩
  | .mk _ .null => .ok ⟨.null, .plain .null rfl rfl⟩
  | .mk _ .this => .ok ⟨.object h.cls, .this (.object h.cls)⟩
  | .mk _ .caller => h.caller
  | .mk _ .random => .ok ⟨.num, .plain .num rfl rfl⟩
  | .mk _ (.name path) => h.name path
  | .mk _ (.field object name) => h.field (judges h object) name
  | .mk _ (.index object index) => h.index (judges h object) (judges h index)
  | .mk _ (.call object method args) => by
    simp only [Judges, checkExpr, checkForm]
    refine (needValue_agree (judges h object)).bind fun object object' hobject => ?_
    refine (h.objectClass_agree hobject.ty method).bind fun cls cls' hcls => ?_
    refine (h.lookupMethod_agree hcls method).bind fun sig sig' hsig => ?_
    rw [h.receiverPlace_eq hobject.expr, hsig.callRequirement_eq]
    refine (h.require_agree _ _).bind fun _ _ _ => ?_
    refine (countArgs_agree hsig args).bind fun _ _ _ => ?_
    refine (judgesArgs h args hsig.params).bind fun _ _ _ => ?_
    exact .ok ⟨hsig.ret, .plain hsig.ret rfl rfl⟩
  | .mk _ (.superCall method args) => by
    simp only [Judges, checkExpr, checkForm]
    refine (h.lookupSuper_agree method (h.classes.parents h.cls)).bind ?_
    rintro ⟨parent, sig⟩ ⟨parent', sig'⟩ ⟨-, hsig⟩
    dsimp only at hsig ⊢
    rw [hsig.callRequirement_eq]
    refine (h.require_agree _ _).bind fun _ _ _ => ?_
    refine (countArgs_agree hsig args).bind fun _ _ _ => ?_
    refine (judgesArgs h args hsig.params).bind fun _ _ _ => ?_
    exact .ok ⟨hsig.ret, .plain hsig.ret rfl rfl⟩
  | .mk _ (.new ty) => h.new ty
  | .mk _ (.binary op left right) => h.binary op (judges h left) (judges h right)
  | .mk _ (.unary op operand) => h.unary op (judges h operand)
  | .mk _ (.array elements) => by
    simp only [Judges, checkExpr, checkForm]
    refine (judgesValues h elements).bind fun types types' htypes => ?_
    refine (h.commonType_agree htypes).bind fun common common' hcommon => ?_
    exact .ok ⟨.array hcommon, .plain (.array hcommon) rfl rfl⟩
  | .mk _ (.tuple elements) => by
    simp only [Judges, checkExpr, checkForm]
    refine (judgesValues h elements).bind fun types types' htypes => ?_
    exact .ok ⟨.tuple htypes, .plain (.tuple htypes) rfl rfl⟩
  | .mk _ (.cast value ty) => h.cast (judges h value) ty
  | .mk _ (.clone value) => h.clone (judges h value)
  | .mk _ (.len value) => h.len (judges h value)
  | .mk _ (.has collection key) => h.has (judges h collection) (judges h key)
  | .mk _ (.is value path) => h.is (judges h value) path
  | .mk _ (.suggest steps) => by
    simp only [Judges, checkExpr, checkForm]
    exact (judgesSteps h steps).bind fun _ _ _ => .ok ⟨.suggestion, .plain .suggestion rfl rfl⟩

theorem judgesArgs (h : ctx.Matches same alike ctx') : ∀ (args : List Expr) {params params' : List Ty},
    List.Forall₂ (Ty.Matches same) params params' →
    Agree (fun _ _ => True) (ctx.checkArgs params args) (ctx'.checkArgs params' args)
  | [], _, _, hparams => by cases hparams <;> exact .ok trivial
  | _ :: _, _, _, .nil => .ok trivial
  | arg :: args, _, _, .cons hparam hparams => by
    simp only [checkArgs]
    refine (h.need_agree hparam (judges h arg)).bind fun _ _ _ => ?_
    exact (judgesArgs h args hparams).bind fun _ _ _ => .ok trivial

theorem judgesValues (h : ctx.Matches same alike ctx') : ∀ elements : List Expr,
    Agree (fun values values' => List.Forall₂ (Ty.Matches same) values.1 values'.1)
      (ctx.checkValues elements) (ctx'.checkValues elements)
  | [] => .ok .nil
  | element :: rest => by
    simp only [checkValues]
    refine (needValue_agree (judges h element)).bind fun element element' helement => ?_
    exact (judgesValues h rest).bind fun _ _ hrest => .ok (.cons helement.ty hrest)

theorem judgesStep (h : ctx.Matches same alike ctx') : ∀ step : SuggestStep,
    Agree (fun _ _ => True) (ctx.checkStep step) (ctx'.checkStep step)
  | .extend _ target path | .retract _ target path => by
    simp only [checkStep]
    refine (needValue_agree (judges h target)).bind fun target target' htarget => ?_
    refine (h.objectClass_agree htarget.ty _).bind fun _ _ _ => ?_
    exact (h.resolveClass_agree path).bind fun _ _ _ => .ok trivial
  | .call _ target method args => by
    simp only [checkStep]
    refine (needValue_agree (judges h target)).bind fun target target' htarget => ?_
    refine (h.objectClass_agree htarget.ty method).bind fun cls cls' hcls => ?_
    refine (h.lookupMethod_agree hcls method).bind fun sig sig' hsig => ?_
    refine (countArgs_agree hsig args).bind fun _ _ _ => ?_
    exact (judgesArgs h args hsig.params).bind fun _ _ _ => .ok trivial

theorem judgesSteps (h : ctx.Matches same alike ctx') : ∀ steps : List SuggestStep,
    Agree (fun _ _ => True) (ctx.checkSteps steps) (ctx'.checkSteps steps)
  | [] => .ok trivial
  | step :: rest => by
    simp only [checkSteps]
    exact (judgesStep h step).bind fun _ _ _ => (judgesSteps h rest).bind fun _ _ _ => .ok trivial

end

end CheckContext.Matches

end Attire
