import Attire.Lowering.Expr
import Attire.Machine.Eval
import Attire.Proofs.Runs.Contents
import Attire.Proofs.Runs.Rules
import Attire.Proofs.Typing.Checker
import Attire.Proofs.Typing.Relations

namespace Attire

/-! What casts deliver.  Only the outermost type is converted to, so a cast keeps its promise
unless a text is expected inside where something else stands. -/

namespace Ty

mutual

/-- Inside the types, a text is expected only where a text stands. -/
def keepsTexts : Ty → Ty → Bool
  | array a, array b => keepsTexts a b
  | set a, set b => keepsTexts a b
  | map key value, map key' value' => keepsTexts key key' && keepsTexts value value'
  | tuple as, tuple bs => keepsAllTexts as bs
  | a, text => a.same text
  | _, _ => true

def keepsAllTexts : List Ty → List Ty → Bool
  | a :: as, b :: bs => keepsTexts a b && keepsAllTexts as bs
  | _, _ => true

end

mutual

/-- No type of a method occurs in the type. -/
def methodFree : Ty → Bool
  | method .. => false
  | num | text | bool | void | null | suggestion | object _ => true
  | array element | set element => methodFree element
  | tuple elements => allMethodFree elements
  | map key value => methodFree key && methodFree value

def allMethodFree : List Ty → Bool
  | [] => true
  | ty :: rest => methodFree ty && allMethodFree rest

end

end Ty

mutual

/-- Whether a value is one of a type, as the heap stands.  References may be null, and containers
hold only values of the types of their contents.  An object may have changed its classes. -/
def Conforms (heap : Heap) : Ty → Value → Prop
  | .num, value => ∃ number, value = .num number
  | .text, value => ∃ content, value = .text content
  | .bool, value => ∃ flag, value = .bool flag
  | .void, value | .null, value => value = .null
  | .suggestion, value => ∃ stamp steps, value = .suggestion stamp steps
  | .object _, value =>
    value = .null ∨ ∃ ref object, value = .object ref ∧ heap.object? ref = some object
  | .array element, value =>
    value = .null ∨ ∃ ref items, value = .array ref ∧ heap.array? ref = some items ∧
      ∀ item ∈ items, Conforms heap element item
  | .set element, value =>
    value = .null ∨ ∃ ref entries, value = .set ref ∧ heap.set? ref = some entries ∧
      ∀ item ∈ entries.values, Conforms heap element item
  | .map key content, value =>
    value = .null ∨ ∃ ref entries, value = .map ref ∧ heap.map? ref = some entries ∧
      ∀ entry ∈ entries.values, Conforms heap key entry.1 ∧ Conforms heap content entry.2
  | .tuple elements, value => ∃ items, value = .tuple items ∧ ConformsAll heap elements items
  | .method .., _ => False

def ConformsAll (heap : Heap) : List Ty → List Value → Prop
  | [], [] => True
  | ty :: types, value :: values => Conforms heap ty value ∧ ConformsAll heap types values
  | _, _ => False

end

/-- What a cast promises: a value of its target, and if that is a class, null or an object that
is of the class at present. -/
def Delivered (heap : Heap) (target : Ty) (value : Value) : Prop :=
  Conforms heap target value ∧
    ∀ cls, target = .object cls → value = .null ∨ Machine.isInstance heap value cls

variable {classes : Hierarchy} {heap : Heap} {source target : Ty} {value : Value}

/-- What a type can be cast to without a text being made, by its outermost form. -/
theorem Ty.castable_cases : relates .castable classes source target → target.nullFree →
    source.keepsTexts target →
    match source with
    | null => target.isNullable
    | object _ => ∃ cls, target = object cls
    | array a => ∃ b, target = array b ∧ relates .castable classes a b ∧ b.nullFree ∧ a.keepsTexts b
    | set a => ∃ b, target = set b ∧ relates .castable classes a b ∧ b.nullFree ∧ a.keepsTexts b
    | map key content => ∃ key' content', target = map key' content' ∧
        (relates .castable classes key key' ∧ key'.nullFree ∧ key.keepsTexts key') ∧
        relates .castable classes content content' ∧ content'.nullFree ∧ content.keepsTexts content'
    | tuple as => ∃ bs, target = tuple bs ∧ relatesAll .castable classes as bs ∧
        allNullFree bs ∧ keepsAllTexts as bs
    | method .. => True
    | a => target = a := by
  rw [relates.eq_def]
  cases source <;> cases target <;> simp +contextual [same, isNullable, nullFree, keepsTexts]

mutual

/-- A value that is kept as it is conforms to what its type can be cast to, unless a text is
expected inside. -/
theorem Conforms.recast : ∀ {source target : Ty} {value : Value},
    Ty.relates .castable classes source target → target.nullFree → source.keepsTexts target →
      Conforms heap source value → Conforms heap target value
  | .num, _, _, hcast, hnull, hkeeps, h | .text, _, _, hcast, hnull, hkeeps, h
  | .bool, _, _, hcast, hnull, hkeeps, h | .void, _, _, hcast, hnull, hkeeps, h
  | .suggestion, _, _, hcast, hnull, hkeeps, h => by
    obtain rfl := Ty.castable_cases hcast hnull hkeeps
    exact h
  | .method .., _, _, _, _, _, h => by simp [Conforms] at h
  | .null, target, _, hcast, hnull, hkeeps, h => by
    have hnullable : target.isNullable := Ty.castable_cases hcast hnull hkeeps
    unfold Conforms at h
    cases target with
    | object | array | set | map =>
      unfold Conforms
      exact .inl h
    | null => cases hnull
    | num | text | bool | void | suggestion | tuple | method => cases hnullable
  | .object _, _, _, hcast, hnull, hkeeps, h => by
    obtain ⟨cls, rfl⟩ := Ty.castable_cases hcast hnull hkeeps
    unfold Conforms at h ⊢
    exact h
  | .array element, _, _, hcast, hnull, hkeeps, h => by
    obtain ⟨other, rfl, hcast, hnull, hkeeps⟩ := Ty.castable_cases hcast hnull hkeeps
    unfold Conforms at h ⊢
    refine h.imp_right fun ⟨ref, items, hvalue, hitems, hall⟩ => ⟨ref, items, hvalue, hitems, ?_⟩
    exact fun item hmem => (hall item hmem).recast hcast hnull hkeeps
  | .set element, _, _, hcast, hnull, hkeeps, h => by
    obtain ⟨other, rfl, hcast, hnull, hkeeps⟩ := Ty.castable_cases hcast hnull hkeeps
    unfold Conforms at h ⊢
    refine h.imp_right fun ⟨ref, items, hvalue, hitems, hall⟩ => ⟨ref, items, hvalue, hitems, ?_⟩
    exact fun item hmem => (hall item hmem).recast hcast hnull hkeeps
  | .map key content, _, _, hcast, hnull, hkeeps, h => by
    obtain ⟨_, _, rfl, hkey, hcontent⟩ := Ty.castable_cases hcast hnull hkeeps
    unfold Conforms at h ⊢
    refine h.imp_right fun ⟨ref, items, hvalue, hitems, hall⟩ => ⟨ref, items, hvalue, hitems, ?_⟩
    exact fun entry hmem => ⟨(hall entry hmem).1.recast hkey.1 hkey.2.1 hkey.2.2,
      (hall entry hmem).2.recast hcontent.1 hcontent.2.1 hcontent.2.2⟩
  | .tuple elements, _, _, hcast, hnull, hkeeps, h => by
    obtain ⟨others, rfl, hcast, hnull, hkeeps⟩ := Ty.castable_cases hcast hnull hkeeps
    unfold Conforms at h ⊢
    exact h.imp fun items ⟨hvalue, hall⟩ => ⟨hvalue, hall.recast hcast hnull hkeeps⟩

theorem ConformsAll.recast : ∀ {sources targets : List Ty} {values : List Value},
    Ty.relatesAll .castable classes sources targets → Ty.allNullFree targets →
      Ty.keepsAllTexts sources targets → ConformsAll heap sources values →
        ConformsAll heap targets values
  | [], [], _, _, _, _, h => h
  | [], _ :: _, _, hcast, _, _, _ => by simp [Ty.relatesAll] at hcast
  | _ :: _, [], _, hcast, _, _, _ => by simp [Ty.relatesAll] at hcast
  | _ :: _, _ :: _, [], _, _, _, h => by simp [ConformsAll] at h
  | source :: sources, target :: targets, value :: values, hcast, hnull, hkeeps, h => by
    simp only [Ty.relatesAll, Ty.allNullFree, Ty.keepsAllTexts, Bool.and_eq_true] at hcast hnull hkeeps
    exact ⟨h.1.recast hcast.1 hnull.1 hkeeps.1, h.2.recast hcast.2 hnull.2 hkeeps.2⟩

end

/-- A text is made of any value, and any other value is kept. -/
theorem castValue_delivered (hcast : Ty.relates .castable classes source target)
    (hnull : target.nullFree) (hkeeps : target = .text ∨ source.keepsTexts target)
    (h : Conforms heap source value) :
    Delivered heap target (Machine.castValue heap value target) := by
  rcases hkeeps with rfl | hkeeps
  · refine ⟨?_, nofun⟩
    unfold Conforms
    exact ⟨_, rfl⟩
  have hkept := h.recast hcast hnull hkeeps
  cases target with
  | object cls =>
    change Delivered heap _ (if Machine.isInstance heap value cls then value else .null)
    split
    case isTrue hinstance =>
      refine ⟨hkept, fun other heq => .inr ?_⟩
      cases heq
      exact hinstance
    case isFalse =>
      refine ⟨?_, fun _ _ => .inl rfl⟩
      unfold Conforms
      exact .inl rfl
  | text =>
    refine ⟨?_, nofun⟩
    unfold Conforms
    exact ⟨_, rfl⟩
  | _ => exact ⟨hkept, nofun⟩

/-! A cast that would have to make a text inside a value fails on some value. -/

/-- Whatever the first heap holds, the second one holds too. -/
def Heap.Grows (heap later : Heap) : Prop :=
  ∀ ref entity, heap.entity? ref = some entity → later.entity? ref = some entity

namespace Heap.Grows

variable {later final : Heap} {id : Id} {entity : Entity}

theorem refl (heap : Heap) : heap.Grows heap := fun _ _ h => h

theorem trans (h : heap.Grows later) (h' : later.Grows final) : heap.Grows final :=
  fun ref entity hentity => h' ref entity (h ref entity hentity)

theorem alloc : heap.Grows (heap.alloc id entity).2 := fun _ _ => entity?_alloc_of_some

/-- What was allocated stays. -/
theorem entity?_alloc (h : (heap.alloc id entity).2.Grows final) :
    final.entity? (heap.alloc id entity).1 = some entity :=
  h _ _ Heap.entity?_alloc

end Heap.Grows

/-- In every heap that grows from this one, the value is of the type, and of no type that expects
a text inside it where it has something else. -/
def Samples (heap : Heap) (source : Ty) (value : Value) : Prop :=
  ∀ final, heap.Grows final → Conforms final source value ∧
    ∀ target, source.keepsTexts target = false → ¬Conforms final target value

def SamplesAll (heap : Heap) (sources : List Ty) (values : List Value) : Prop :=
  ∀ final, heap.Grows final → ConformsAll final sources values ∧
    ∀ targets, Ty.keepsAllTexts sources targets = false → ¬ConformsAll final targets values

/-- Types of values with nothing inside, and null for objects. -/
def Ty.isLeaf : Ty → Bool
  | num | text | bool | void | null | suggestion | object _ => true
  | array _ | set _ | map _ _ | tuple _ | method .. => false

def Ty.leaf : Ty → Value
  | num => .num 0
  | text => .text ""
  | bool => .bool false
  | suggestion => .suggestion 0 []
  | _ => .null

theorem samples_leaf (h : source.isLeaf) : Samples heap source source.leaf := by
  intro final _
  constructor
  · cases source with
    | array | set | map | tuple | method => cases h
    | _ => simp [Ty.leaf, Conforms]
  · intro target hkeeps
    cases source with
    | array | set | map | tuple | method => cases h
    | _ => cases target <;> simp_all [Ty.keepsTexts, Ty.same, Ty.leaf, Conforms]

mutual

theorem exists_sample : ∀ (source : Ty), source.methodFree → ∀ heap : Heap,
    ∃ later value, heap.Grows later ∧ Samples later source value
  | .num, _, heap | .text, _, heap | .bool, _, heap | .void, _, heap | .null, _, heap
  | .suggestion, _, heap | .object _, _, heap => ⟨heap, _, .refl heap, samples_leaf rfl⟩
  | .array element, hfree, heap => by
    obtain ⟨later, item, hgrows, hitem⟩ := exists_sample element hfree heap
    let made := later.alloc ⟨0⟩ (.array #[item])
    refine ⟨made.2, .array made.1, hgrows.trans .alloc, fun final hfinal => ?_⟩
    obtain ⟨hconforms, hothers⟩ := hitem final (Heap.Grows.alloc.trans hfinal)
    have hitems : final.array? made.1 = some #[item] :=
      Heap.array?_eq_some.mpr hfinal.entity?_alloc
    refine ⟨?_, fun target hkeeps => ?_⟩
    · unfold Conforms
      exact .inr ⟨made.1, #[item], rfl, hitems, by simpa using hconforms⟩
    · cases target <;> simp_all [Ty.keepsTexts, Conforms]
  | .set element, hfree, heap => by
    obtain ⟨later, item, hgrows, hitem⟩ := exists_sample element hfree heap
    let made := later.alloc ⟨0⟩ (.set ⟨[(MapKey.ofValue item, item)]⟩)
    refine ⟨made.2, .set made.1, hgrows.trans .alloc, fun final hfinal => ?_⟩
    obtain ⟨hconforms, hothers⟩ := hitem final (Heap.Grows.alloc.trans hfinal)
    have hitems : final.set? made.1 = some ⟨[(MapKey.ofValue item, item)]⟩ :=
      Heap.set?_eq_some.mpr hfinal.entity?_alloc
    refine ⟨?_, fun target hkeeps => ?_⟩
    · unfold Conforms
      exact .inr ⟨made.1, _, rfl, hitems, by simpa [Ordered.values] using hconforms⟩
    · cases target <;> simp_all [Ty.keepsTexts, Conforms, Ordered.values]
  | .map key content, hfree, heap => by
    obtain ⟨hkeyFree, hcontentFree⟩ := Bool.and_eq_true_iff.mp hfree
    obtain ⟨later, index, hgrows, hindex⟩ := exists_sample key hkeyFree heap
    obtain ⟨last, item, hgrows', hitem⟩ := exists_sample content hcontentFree later
    let made := last.alloc ⟨0⟩ (.map ⟨[(MapKey.ofValue index, (index, item))]⟩)
    refine ⟨made.2, .map made.1, (hgrows.trans hgrows').trans .alloc, fun final hfinal => ?_⟩
    obtain ⟨hconforms, hothers⟩ := hindex final (hgrows'.trans (Heap.Grows.alloc.trans hfinal))
    obtain ⟨hconforms', hothers'⟩ := hitem final (Heap.Grows.alloc.trans hfinal)
    have hentries : final.map? made.1 = some ⟨[(MapKey.ofValue index, (index, item))]⟩ :=
      Heap.map?_eq_some.mpr hfinal.entity?_alloc
    refine ⟨?_, fun target hkeeps => ?_⟩
    · unfold Conforms
      exact .inr ⟨made.1, _, rfl, hentries, by simpa [Ordered.values] using ⟨hconforms, hconforms'⟩⟩
    · cases target with
      | map key' content' =>
        rw [Ty.keepsTexts] at hkeeps
        intro h
        have hinside : Conforms final key' index ∧ Conforms final content' item := by
          simpa [Conforms, hentries, Ordered.values] using h
        rcases Bool.and_eq_false_iff.mp hkeeps with hkeeps | hkeeps
        · exact hothers key' hkeeps hinside.1
        · exact hothers' content' hkeeps hinside.2
      | _ => simp_all [Ty.keepsTexts, Conforms]
  | .tuple elements, hfree, heap => by
    obtain ⟨later, items, hgrows, hitems⟩ := exists_samples elements hfree heap
    refine ⟨later, .tuple items, hgrows, fun final hfinal => ?_⟩
    obtain ⟨hconforms, hothers⟩ := hitems final hfinal
    refine ⟨?_, fun target hkeeps => ?_⟩
    · unfold Conforms
      exact ⟨items, rfl, hconforms⟩
    · cases target <;> simp_all [Ty.keepsTexts, Conforms]

theorem exists_samples : ∀ (sources : List Ty), Ty.allMethodFree sources → ∀ heap : Heap,
    ∃ later values, heap.Grows later ∧ SamplesAll later sources values
  | [], _, heap => by
    refine ⟨heap, [], .refl heap, fun final _ => ⟨?_, fun targets hkeeps => ?_⟩⟩
    · trivial
    · simp [Ty.keepsAllTexts] at hkeeps
  | source :: sources, hfree, heap => by
    obtain ⟨hfirst, hrest⟩ := Bool.and_eq_true_iff.mp hfree
    obtain ⟨later, value, hgrows, hvalue⟩ := exists_sample source hfirst heap
    obtain ⟨last, values, hgrows', hvalues⟩ := exists_samples sources hrest later
    refine ⟨last, value :: values, hgrows.trans hgrows', fun final hfinal => ?_⟩
    obtain ⟨hconforms, hothers⟩ := hvalue final (hgrows'.trans hfinal)
    obtain ⟨hconformsAll, hothersAll⟩ := hvalues final hfinal
    refine ⟨⟨hconforms, hconformsAll⟩, fun targets hkeeps h => ?_⟩
    cases targets with
    | nil => exact h
    | cons target targets =>
      rcases Bool.and_eq_false_iff.mp hkeeps with hkeeps | hkeeps
      · exact hothers target hkeeps h.1
      · exact hothersAll targets hkeeps h.2

end

theorem exists_undelivered (hfree : source.methodFree)
    (hnone : ¬(target = .text ∨ source.keepsTexts target)) :
    ∃ heap value, Conforms heap source value ∧
      ¬Delivered heap target (Machine.castValue heap value target) := by
  obtain ⟨htext, hkeeps⟩ := not_or.mp hnone
  obtain ⟨later, value, -, hsample⟩ := exists_sample source hfree {}
  obtain ⟨hconforms, hothers⟩ := hsample later (.refl later)
  refine ⟨later, value, hconforms, fun hdelivered => ?_⟩
  have hkept := hdelivered.1
  refine hothers target (Bool.eq_false_iff.mpr hkeeps) ?_
  cases target with
  | text => exact absurd rfl htext
  | object cls => cases source <;> simp [Ty.keepsTexts] at hkeeps
  | _ => exact hkept

namespace Ty

variable {names : NameScope}

mutual

/-- `null` cannot be written as a type. -/
theorem nullFree_of_resolveType : ∀ {written : TypeExpr} {ty : Ty},
    names.resolveType written = .ok ty → ty.nullFree
  | .num, _, h | .text, _, h | .bool, _, h | .void, _, h | .suggestion, _, h => by
    cases h
    rfl
  | .named path, _, h => by
    obtain ⟨cls, -, h⟩ := bind_eq_ok.mp h
    cases h
    rfl
  | .array element, _, h | .set element, _, h => by
    obtain ⟨ty, hty, h⟩ := bind_eq_ok.mp h
    cases h
    have hfree := nullFree_of_resolveType hty
    rwa [nullFree]
  | .map key value, _, h => by
    obtain ⟨keyTy, hkey, h⟩ := bind_eq_ok.mp h
    obtain ⟨valueTy, hvalue, h⟩ := bind_eq_ok.mp h
    cases h
    exact Bool.and_eq_true_iff.mpr ⟨nullFree_of_resolveType hkey, nullFree_of_resolveType hvalue⟩
  | .tuple elements, _, h => by
    obtain ⟨types, htypes, h⟩ := bind_eq_ok.mp h
    cases h
    exact allNullFree_of_resolveTypes htypes

theorem allNullFree_of_resolveTypes : ∀ {written : List TypeExpr} {types : List Ty},
    names.resolveTypes written = .ok types → allNullFree types
  | [], _, h => by
    cases h
    rfl
  | _ :: _, _, h => by
    obtain ⟨ty, hty, h⟩ := bind_eq_ok.mp h
    obtain ⟨rest, hrest, h⟩ := bind_eq_ok.mp h
    cases h
    exact Bool.and_eq_true_iff.mpr
      ⟨nullFree_of_resolveType hty, allNullFree_of_resolveTypes hrest⟩

end

end Ty

theorem lowerExpr_cast (fabrics : Fabrics) (operand : Expr) (written : TypeExpr)
    (state : LoweringState) :
    (Lower.lowerExpr fabrics (.mk (some ⟨target, none⟩) (.cast operand written)) state).1 =
      .cast (Lower.lowerExpr fabrics operand state).1 target := by
  rw [Lower.lowerExpr, Lower.lowerForm]
  rfl

/-- The code of a cast runs its operand and converts what it yields. -/
theorem run_cast {steps : Nat} {code : Code} {frame frame' : Frame} {machine after : Machine}
    (h : (Machine.eval steps code).run frame machine = .ok (value, frame') after) :
    (Machine.eval (steps + 1) (.cast code target)).run frame machine =
      .ok (Machine.castValue after.heap value target, frame') after := by
  unfold Machine.eval
  exact run_bind_ok h

/-- Whenever a cast that the checker accepts runs on a value of the type of its operand, it yields
what it promises, if its target is the type of texts or expects no text inside where the type of
the operand has something else.  For any other target there is a value on which the cast breaks its
promise. -/
theorem CheckContext.cast_delivers {ctx : CheckContext} {note : Option Note}
    {operand cast : Expr} {written : TypeExpr} {target : Ty}
    (h : ctx.checkExpr (.mk note (.cast operand written)) = .ok (target, cast)) :
    ∃ source accepted, ctx.checkExpr operand = .ok (source, accepted) ∧
      ((target = .text ∨ source.keepsTexts target) →
        ∀ (fabrics : Fabrics) (state : LoweringState) (steps : Nat) (frame frame' : Frame)
          (machine after : Machine) (value : Value),
          (Machine.eval steps (Lower.lowerExpr fabrics accepted state).1).run frame machine =
            .ok (value, frame') after →
          Conforms after.heap source value →
          ∃ answer,
            (Machine.eval (steps + 1) (Lower.lowerExpr fabrics cast state).1).run frame machine =
              .ok (answer, frame') after ∧
            Delivered after.heap target answer) ∧
      (source.methodFree → ¬(target = .text ∨ source.keepsTexts target) →
        ∃ heap value, Conforms heap source value ∧
          ¬Delivered heap target (Machine.castValue heap value target)) := by
  simp only [checkExpr, checkForm, bind_eq_ok, needValue_eq_ok, if_eq_ok] at h
  obtain ⟨⟨source, accepted⟩, ⟨hsource, -⟩, resolved, hresolved, hcastable, heq⟩ := h
  cases heq
  have hnull := Ty.nullFree_of_resolveType (mapError_eq_ok.mp hresolved)
  refine ⟨source, accepted, hsource, fun hkeeps fabrics state steps frame frame' machine after value
    hrun hconforms => ⟨_, ?_, castValue_delivered hcastable hnull hkeeps hconforms⟩,
    exists_undelivered⟩
  rw [lowerExpr_cast]
  exact run_cast hrun

/-! A number on its own, and one inside a tuple. -/

/-- What a body is checked against where no class is known. -/
def bareContext : CheckContext :=
  { classes := {}, names := ⟨{}, {}⟩, rootClass := none, clonableClass := none }

def five : Expr := .mk none (.num 5)

theorem five_cast :
    (∃ answer, (Machine.eval 2 (.cast (.num 5) .text)).run default {} = .ok (answer, default) {} ∧
      Delivered {} .text answer) ∧
    ∃ heap value, Conforms heap (.tuple [.num]) value ∧
      ¬Delivered heap (.tuple [.text]) (Machine.castValue heap value (.tuple [.text])) := by
  have hplain : bareContext.checkExpr (.mk none (.cast five .text)) =
      .ok (.text, .mk (some ⟨.text, none⟩) (.cast (.mk (some ⟨.num, none⟩) (.num 5)) .text)) := rfl
  have hinside : bareContext.checkExpr (.mk none (.cast (.mk none (.tuple [five])) (.tuple [.text]))) =
      .ok (.tuple [.text], .mk (some ⟨.tuple [.text], none⟩) (.cast
        (.mk (some ⟨.tuple [.num], none⟩) (.tuple [.mk (some ⟨.num, none⟩) (.num 5)]))
        (.tuple [.text]))) := rfl
  obtain ⟨source, accepted, hsource, hdelivers, -⟩ := CheckContext.cast_delivers hplain
  cases hsource
  obtain ⟨source', accepted', hsource', -, hbreaks⟩ := CheckContext.cast_delivers hinside
  cases hsource'
  refine ⟨hdelivers (.inl rfl) (fun _ => none) {} 1 default default {} {} (.num 5) rfl ?_,
    hbreaks rfl ?_⟩
  · unfold Conforms
    exact ⟨_, rfl⟩
  · simp [Ty.keepsTexts, Ty.keepsAllTexts, Ty.same]

end Attire
