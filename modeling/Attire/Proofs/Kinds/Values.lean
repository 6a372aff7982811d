import Attire.Proofs.Classes.Registry
import Attire.Proofs.Typing.Casts

namespace Attire

/-! Types with their classes forgotten, and the values that are of them. -/

inductive Kind
  | num
  | text
  | bool
  | nothing
  | suggestion
  | object
  | array (element : Kind)
  | set (element : Kind)
  | map (key value : Kind)
  | tuple (elements : List Kind)

@[simp] def Kind.isNullable : Kind → Bool
  | nothing | object | array _ | set _ | map _ _ => true
  | num | text | bool | suggestion | tuple _ => false

namespace Ty

mutual

/-- What is left of a type without its classes.  Where `null` or a method occurs in a type, it is of
no kind. -/
def kind? : Ty → Option Kind
  | num => some .num
  | text => some .text
  | bool => some .bool
  | void => some .nothing
  | suggestion => some .suggestion
  | object _ => some .object
  | array element => (kind? element).map .array
  | set element => (kind? element).map .set
  | map key value => (kind? key).bind fun key => (kind? value).map (.map key)
  | tuple elements => (kinds? elements).map .tuple
  | null | method .. => none

def kinds? : List Ty → Option (List Kind)
  | [] => some []
  | ty :: rest => (kind? ty).bind fun kind => (kinds? rest).map (kind :: ·)

end

theorem kind?_array {element : Ty} {kind : Kind} :
    (array element).kind? = some kind ↔ ∃ inner, element.kind? = some inner ∧ .array inner = kind :=
  Option.map_eq_some_iff

theorem kind?_set {element : Ty} {kind : Kind} :
    (set element).kind? = some kind ↔ ∃ inner, element.kind? = some inner ∧ .set inner = kind :=
  Option.map_eq_some_iff

theorem kind?_map {key value : Ty} {kind : Kind} :
    (map key value).kind? = some kind ↔ ∃ keyKind valueKind, key.kind? = some keyKind ∧
      value.kind? = some valueKind ∧ .map keyKind valueKind = kind := by
  change ((kind? key).bind fun key => (kind? value).map (.map key)) = some kind ↔ _
  simp only [Option.bind_eq_some_iff, Option.map_eq_some_iff, ← exists_and_left]

theorem kind?_tuple {elements : List Ty} {kind : Kind} :
    (tuple elements).kind? = some kind ↔
      ∃ kinds, kinds? elements = some kinds ∧ .tuple kinds = kind :=
  Option.map_eq_some_iff

theorem kinds?_cons {ty : Ty} {rest : List Ty} {kinds : List Kind} :
    kinds? (ty :: rest) = some kinds ↔ ∃ kind others, ty.kind? = some kind ∧
      kinds? rest = some others ∧ kind :: others = kinds := by
  change ((kind? ty).bind fun kind => (kinds? rest).map (kind :: ·)) = some kinds ↔ _
  simp only [Option.bind_eq_some_iff, Option.map_eq_some_iff, ← exists_and_left]

theorem kinds?_getElem? : ∀ {types : List Ty} {kinds : List Kind} {index : Nat} {ty : Ty},
    kinds? types = some kinds → types[index]? = some ty →
      ∃ kind, ty.kind? = some kind ∧ kinds[index]? = some kind
  | [], _, _, _, _, hty => by cases hty
  | ty :: rest, _, index, _, h, hty => by
    obtain ⟨kind, others, hkind, hothers, rfl⟩ := kinds?_cons.mp h
    cases index with
    | zero =>
      cases hty
      exact ⟨kind, hkind, rfl⟩
    | succ index =>
      have hrest : rest[index]? = some _ := hty
      obtain ⟨found, hfound, helement⟩ := kinds?_getElem? hothers hrest
      exact ⟨found, hfound, helement⟩

theorem kinds?_length : ∀ {types : List Ty} {kinds : List Kind},
    kinds? types = some kinds → kinds.length = types.length
  | [], _, h => by
    cases h
    rfl
  | _ :: _, _, h => by
    obtain ⟨_, _, -, hothers, rfl⟩ := kinds?_cons.mp h
    rw [List.length_cons, List.length_cons, kinds?_length hothers]

mutual

theorem kind?_anonymous : ∀ ty : Ty, ty.anonymous.kind? = ty.kind?
  | num | text | bool | void | null | suggestion | object _ | method .. => rfl
  | array element | set element => by
    rw [anonymous, kind?, kind?_anonymous element, kind?]
  | map key value => by
    rw [anonymous, kind?, kind?_anonymous key, kind?_anonymous value, kind?]
  | tuple elements => by
    rw [anonymous, kind?, kinds?_anonymousAll elements, kind?]

theorem kinds?_anonymousAll : ∀ types : List Ty, kinds? (anonymousAll types) = kinds? types
  | [] => rfl
  | ty :: rest => by
    rw [anonymousAll, kinds?, kind?_anonymous ty, kinds?_anonymousAll rest, kinds?]

end

theorem kind?_of_same {a b : Ty} (h : a.same b) : a.kind? = b.kind? := by
  rw [← kind?_anonymous a, same_iff.mp h, kind?_anonymous]

mutual

/-- Types that stand in for each other are of one kind, if they are of a kind at all. -/
theorem kind?_of_subtype {classes : Hierarchy} : ∀ {a b : Ty} {kind kind' : Kind},
    relates .subtype classes a b → a.kind? = some kind → b.kind? = some kind' → kind = kind'
  | .num, _, _, _, h, ha, hb | .text, _, _, _, h, ha, hb | .bool, _, _, _, h, ha, hb
  | .void, _, _, _, h, ha, hb | .suggestion, _, _, _, h, ha, hb => by
    have hsame := (subtype_plain rfl).mp h
    exact Option.some.inj (ha.symm.trans ((kind?_of_same hsame).trans hb))
  | .null, _, _, _, _, ha, _ | .method .., _, _, _, _, ha, _ => by cases ha
  | .object cls, _, _, _, h, ha, hb => by
    rcases subtype_iff.mp h with rfl | ⟨_, rfl, -⟩
    · cases hb
    · exact Option.some.inj (ha.symm.trans hb)
  | .array _, _, _, _, h, ha, hb => by
    rcases subtype_iff.mp h with rfl | ⟨other, rfl, helement⟩
    · cases hb
    obtain ⟨inner, hinner, rfl⟩ := kind?_array.mp ha
    obtain ⟨inner', hinner', rfl⟩ := kind?_array.mp hb
    rw [kind?_of_subtype helement hinner hinner']
  | .set _, _, _, _, h, ha, hb => by
    rcases subtype_iff.mp h with rfl | ⟨other, rfl, helement⟩
    · cases hb
    obtain ⟨inner, hinner, rfl⟩ := kind?_set.mp ha
    obtain ⟨inner', hinner', rfl⟩ := kind?_set.mp hb
    rw [kind?_of_subtype helement hinner hinner']
  | .map _ _, _, _, _, h, ha, hb => by
    rcases subtype_iff.mp h with rfl | ⟨key, value, rfl, hkey, hvalue⟩
    · cases hb
    obtain ⟨_, _, hkeyKind, hvalueKind, rfl⟩ := kind?_map.mp ha
    obtain ⟨_, _, hkeyKind', hvalueKind', rfl⟩ := kind?_map.mp hb
    rw [kind?_of_subtype hkey hkeyKind hkeyKind', kind?_of_subtype hvalue hvalueKind hvalueKind']
  | .tuple _, _, _, _, h, ha, hb => by
    obtain ⟨others, rfl, helements⟩ := subtype_iff.mp h
    obtain ⟨kinds, hkinds, rfl⟩ := kind?_tuple.mp ha
    obtain ⟨kinds', hkinds', rfl⟩ := kind?_tuple.mp hb
    rw [kinds?_of_subtypes helements hkinds hkinds']

theorem kinds?_of_subtypes {classes : Hierarchy} : ∀ {as bs : List Ty} {kinds kinds' : List Kind},
    relatesAll .subtype classes as bs → kinds? as = some kinds → kinds? bs = some kinds' →
      kinds = kinds'
  | [], [], _, _, _, ha, hb => Option.some.inj (ha.symm.trans hb)
  | [], _ :: _, _, _, h, _, _ | _ :: _, [], _, _, h, _, _ => by simp [relatesAll] at h
  | _ :: _, _ :: _, _, _, h, ha, hb => by
    obtain ⟨hfirst, hrest⟩ := Bool.and_eq_true_iff.mp h
    obtain ⟨_, _, hkind, hothers, rfl⟩ := kinds?_cons.mp ha
    obtain ⟨_, _, hkind', hothers', rfl⟩ := kinds?_cons.mp hb
    rw [kind?_of_subtype hfirst hkind hkind', kinds?_of_subtypes hrest hothers hothers']

end

/-- A type of a kind takes `null` if its kind does. -/
theorem isNullable_of_kind? {ty : Ty} {kind : Kind} (h : ty.kind? = some kind)
    (hnullable : ty.isNullable) : kind.isNullable := by
  cases ty with
  | object =>
    cases h
    rfl
  | array =>
    obtain ⟨_, -, rfl⟩ := kind?_array.mp h
    rfl
  | set =>
    obtain ⟨_, -, rfl⟩ := kind?_set.mp h
    rfl
  | map =>
    obtain ⟨_, _, -, -, rfl⟩ := kind?_map.mp h
    rfl
  | _ => cases hnullable <;> cases h

mutual

/-- Every type that can be written is of a kind. -/
theorem kind?_of_resolveType {names : NameScope} : ∀ {written : TypeExpr} {ty : Ty},
    names.resolveType written = .ok ty → ∃ kind, ty.kind? = some kind
  | .num, _, h | .text, _, h | .bool, _, h | .void, _, h | .suggestion, _, h => by
    cases h
    exact ⟨_, rfl⟩
  | .named path, _, h => by
    obtain ⟨cls, -, h⟩ := bind_eq_ok.mp h
    cases h
    exact ⟨_, rfl⟩
  | .array element, _, h => by
    obtain ⟨ty, hty, h⟩ := bind_eq_ok.mp h
    cases h
    obtain ⟨kind, hkind⟩ := kind?_of_resolveType hty
    exact ⟨_, kind?_array.mpr ⟨kind, hkind, rfl⟩⟩
  | .set element, _, h => by
    obtain ⟨ty, hty, h⟩ := bind_eq_ok.mp h
    cases h
    obtain ⟨kind, hkind⟩ := kind?_of_resolveType hty
    exact ⟨_, kind?_set.mpr ⟨kind, hkind, rfl⟩⟩
  | .map key value, _, h => by
    obtain ⟨keyTy, hkey, h⟩ := bind_eq_ok.mp h
    obtain ⟨valueTy, hvalue, h⟩ := bind_eq_ok.mp h
    cases h
    obtain ⟨keyKind, hkeyKind⟩ := kind?_of_resolveType hkey
    obtain ⟨valueKind, hvalueKind⟩ := kind?_of_resolveType hvalue
    exact ⟨_, kind?_map.mpr ⟨keyKind, valueKind, hkeyKind, hvalueKind, rfl⟩⟩
  | .tuple elements, _, h => by
    obtain ⟨types, htypes, h⟩ := bind_eq_ok.mp h
    cases h
    obtain ⟨kinds, hkinds⟩ := kinds?_of_resolveTypes htypes
    exact ⟨_, kind?_tuple.mpr ⟨kinds, hkinds, rfl⟩⟩

theorem kinds?_of_resolveTypes {names : NameScope} : ∀ {written : List TypeExpr}
    {types : List Ty}, names.resolveTypes written = .ok types → ∃ kinds, kinds? types = some kinds
  | [], _, h => by
    cases h
    exact ⟨[], rfl⟩
  | _ :: _, _, h => by
    obtain ⟨ty, hty, h⟩ := bind_eq_ok.mp h
    obtain ⟨rest, hrest, h⟩ := bind_eq_ok.mp h
    cases h
    obtain ⟨kind, hkind⟩ := kind?_of_resolveType hty
    obtain ⟨kinds, hkinds⟩ := kinds?_of_resolveTypes hrest
    exact ⟨_, kinds?_cons.mpr ⟨kind, kinds, hkind, hkinds, rfl⟩⟩

end

theorem Written.kind? {ty : Ty} (h : ty.Written) : ∃ kind, ty.kind? = some kind := by
  obtain ⟨names, written, hwritten⟩ := h
  exact kind?_of_resolveType hwritten

theorem kinds?_of_written {types : List Ty} (h : ∀ ty ∈ types, ty.Written) :
    ∃ kinds, kinds? types = some kinds := by
  induction types with
  | nil => exact ⟨[], rfl⟩
  | cons ty rest ih =>
    obtain ⟨kind, hkind⟩ := (h ty (by simp)).kind?
    obtain ⟨kinds, hkinds⟩ := ih fun other hmem => h other (by simp [hmem])
    exact ⟨_, kinds?_cons.mpr ⟨kind, kinds, hkind, hkinds, rfl⟩⟩

end Ty

/-- A method that can be written down has parameters and answers of some kinds. -/
theorem MethodSig.Written.kinds? {sig : MethodSig} (h : sig.Written) :
    ∃ params ret, Ty.kinds? sig.params = some params ∧ sig.ret.kind? = some ret := by
  obtain ⟨params, hparams⟩ := Ty.kinds?_of_written h.params
  obtain ⟨ret, hret⟩ := h.ret.kind?
  exact ⟨params, ret, hparams, hret⟩

/-- What a heap may hold: the classes that there are, and the kinds of the entities by their
addresses. -/
structure Kinds where
  classes : ClassRegistry
  cells : List Kind

namespace Kinds

instance : Preorder Kinds where
  le a b := a.classes.Extends b.classes ∧ a.cells <+: b.cells
  le_refl a := ⟨.refl _, List.prefix_refl a.cells⟩
  le_trans _ _ _ h h' := ⟨h.1.trans h'.1, h.2.trans h'.2⟩

variable {kinds later : Kinds} {ref : Ref} {key : FieldKey} {slot : MethodSlot}
variable {kind kind' : Kind} {params params' : List Kind}

def Has (kinds : Kinds) (ref : Ref) (kind : Kind) : Prop :=
  kinds.cells[ref.address]? = some kind

/-- Fields under the key are of the kind. -/
def Holds (kinds : Kinds) (key : FieldKey) (kind : Kind) : Prop :=
  ∃ found own, kinds.classes.get? key.owner = some found ∧
    found.ownFields[key.index]? = some own ∧ own.ty.kind? = some kind

/-- Methods for the slot take arguments of these kinds, and their answers are of the last kind. -/
def Takes (kinds : Kinds) (slot : MethodSlot) (params : List Kind) (ret : Kind) : Prop :=
  ∃ cls sig, kinds.classes.Declares cls sig ∧ sig.slot = slot ∧
    Ty.kinds? sig.params = some params ∧ sig.ret.kind? = some ret

theorem Has.mono (hle : kinds ≤ later) (h : kinds.Has ref kind) : later.Has ref kind := by
  obtain ⟨rest, hrest⟩ := hle.2
  have hlt := (List.getElem?_eq_some_iff.mp h).1
  rw [Has, ← hrest, List.getElem?_append_left hlt, h]

theorem Holds.mono (hle : kinds ≤ later) (h : kinds.Holds key kind) : later.Holds key kind := by
  obtain ⟨found, own, hfound, hown, hkind⟩ := h
  exact ⟨found, own, hle.1 _ _ hfound, hown, hkind⟩

theorem Takes.mono (hle : kinds ≤ later) (h : kinds.Takes slot params kind) :
    later.Takes slot params kind := by
  obtain ⟨cls, sig, hdeclares, hslot, hkinds⟩ := h
  exact ⟨cls, sig, hle.1.outlines.declares hdeclares, hslot, hkinds⟩

theorem Holds.unique (h : kinds.Holds key kind) (h' : kinds.Holds key kind') : kind = kind' := by
  obtain ⟨found, own, hfound, hown, hkind⟩ := h
  obtain ⟨found', own', hfound', hown', hkind'⟩ := h'
  rw [hfound] at hfound'
  cases hfound'
  rw [hown] at hown'
  cases hown'
  exact Option.some.inj (hkind.symm.trans hkind')

/-- All methods for one slot have one contract, so they take the like. -/
theorem Takes.unique (hcomposed : kinds.classes.Composed) (h : kinds.Takes slot params kind)
    (h' : kinds.Takes slot params' kind') : params = params' ∧ kind = kind' := by
  obtain ⟨cls, sig, hdeclares, rfl, hparams, hret⟩ := h
  obtain ⟨cls', sig', hdeclares', hslot, hparams', hret'⟩ := h'
  have hcontract := hcomposed.contract_eq hdeclares hdeclares' hslot.symm
  simp only [MethodSig.contract, MethodSig.mk.injEq] at hcontract
  obtain ⟨-, -, -, -, hsameRet, hsameParams⟩ := hcontract
  constructor
  · rw [← Ty.kinds?_anonymousAll, hsameParams, Ty.kinds?_anonymousAll, hparams'] at hparams
    exact (Option.some.inj hparams).symm
  · rw [← Ty.kind?_anonymous, hsameRet, Ty.kind?_anonymous, hret'] at hret
    exact (Option.some.inj hret).symm

end Kinds

mutual

/-- The value is of the kind, where `kinds` tells what entities are of and what methods take. -/
def Value.OfKind (kinds : Kinds) : Value → Kind → Prop
  | .null, kind => kind.isNullable
  | .num _, kind => kind = .num
  | .bool _, kind => kind = .bool
  | .text _, kind => kind = .text
  | .object ref, kind => kind = .object ∧ kinds.Has ref kind
  | .array ref, kind => (∃ element, kind = .array element) ∧ kinds.Has ref kind
  | .map ref, kind => (∃ key value, kind = .map key value) ∧ kinds.Has ref kind
  | .set ref, kind => (∃ element, kind = .set element) ∧ kinds.Has ref kind
  | .tuple items, kind => ∃ elements, kind = .tuple elements ∧ Value.AllOfKinds kinds items elements
  | .suggestion _ steps, kind => kind = .suggestion ∧ Step.AllOfKind kinds steps

def Value.AllOfKinds (kinds : Kinds) : List Value → List Kind → Prop
  | [], [] => True
  | value :: values, kind :: rest => value.OfKind kinds kind ∧ Value.AllOfKinds kinds values rest
  | _, _ => False

/-- The parties of the step are objects, and its arguments are of the kinds that the method takes. -/
def Step.OfKind (kinds : Kinds) : Step → Prop
  | .extend target _ | .retract target _ => target.OfKind kinds .object
  | .call target caller slot args =>
    target.OfKind kinds .object ∧ caller.OfKind kinds .object ∧
      ∃ params ret, kinds.Takes slot params ret ∧ Value.AllOfKinds kinds args params

def Step.AllOfKind (kinds : Kinds) : List Step → Prop
  | [] => True
  | step :: rest => step.OfKind kinds ∧ Step.AllOfKind kinds rest

end

mutual

/-- Values stay of their kinds when there are more classes and more entities. -/
theorem Value.OfKind.mono {kinds later : Kinds} (hle : kinds ≤ later) :
    ∀ {value : Value} {kind : Kind}, value.OfKind kinds kind → value.OfKind later kind
  | .null, _, h | .num _, _, h | .bool _, _, h | .text _, _, h => h
  | .object _, _, h | .array _, _, h | .map _, _, h | .set _, _, h => ⟨h.1, h.2.mono hle⟩
  | .tuple _, _, ⟨elements, heq, hitems⟩ => ⟨elements, heq, hitems.mono hle⟩
  | .suggestion _ _, _, ⟨heq, hsteps⟩ => ⟨heq, hsteps.mono hle⟩

theorem Value.AllOfKinds.mono {kinds later : Kinds} (hle : kinds ≤ later) :
    ∀ {values : List Value} {all : List Kind}, Value.AllOfKinds kinds values all →
      Value.AllOfKinds later values all
  | [], [], _ => trivial
  | _ :: _, _ :: _, ⟨hvalue, hvalues⟩ => ⟨hvalue.mono hle, hvalues.mono hle⟩

theorem Step.OfKind.mono {kinds later : Kinds} (hle : kinds ≤ later) :
    ∀ {step : Step}, step.OfKind kinds → step.OfKind later
  | .extend _ _, htarget | .retract _ _, htarget => Value.OfKind.mono hle htarget
  | .call _ _ _ _, ⟨htarget, hcaller, params, ret, htakes, hargs⟩ =>
    ⟨htarget.mono hle, hcaller.mono hle, params, ret, htakes.mono hle, hargs.mono hle⟩

theorem Step.AllOfKind.mono {kinds later : Kinds} (hle : kinds ≤ later) :
    ∀ {steps : List Step}, Step.AllOfKind kinds steps → Step.AllOfKind later steps
  | [], _ => trivial
  | _ :: _, ⟨hstep, hsteps⟩ => ⟨hstep.mono hle, hsteps.mono hle⟩

end

section

variable {kinds : Kinds} {value : Value} {kind : Kind} {ref : Ref}

@[simp] theorem Value.allOfKinds_nil : Value.AllOfKinds kinds [] [] := trivial

@[simp] theorem Value.allOfKinds_cons {values : List Value} {all : List Kind} :
    Value.AllOfKinds kinds (value :: values) (kind :: all) ↔
      value.OfKind kinds kind ∧ Value.AllOfKinds kinds values all := Iff.rfl

theorem Value.allOfKinds_iff {values : List Value} {all : List Kind} :
    Value.AllOfKinds kinds values all ↔ List.Forall₂ (Value.OfKind kinds) values all := by
  induction values generalizing all with
  | nil =>
    cases all with
    | nil => simp
    | cons => exact iff_of_false id fun h => by cases h
  | cons value values ih =>
    cases all with
    | nil => exact iff_of_false id fun h => by cases h
    | cons kind all => rw [allOfKinds_cons, List.forall₂_cons, ih]

theorem Step.allOfKind_iff {steps : List Step} :
    Step.AllOfKind kinds steps ↔ ∀ step ∈ steps, step.OfKind kinds := by
  induction steps with
  | nil => exact iff_of_true trivial fun step hmem => by cases hmem
  | cons step steps ih =>
    rw [List.forall_mem_cons, ← ih]
    rfl

namespace Value

@[simp] theorem null_ofKind : null.OfKind kinds kind ↔ kind.isNullable := Iff.rfl

@[simp] theorem num_ofKind {number : Float} : (num number).OfKind kinds kind ↔ kind = .num := Iff.rfl

@[simp] theorem bool_ofKind {flag : Bool} : (bool flag).OfKind kinds kind ↔ kind = .bool := Iff.rfl

@[simp] theorem text_ofKind {content : String} :
    (text content).OfKind kinds kind ↔ kind = .text := Iff.rfl

@[simp] theorem object_ofKind :
    (object ref).OfKind kinds kind ↔ kind = .object ∧ kinds.Has ref kind := Iff.rfl

@[simp] theorem array_ofKind : (array ref).OfKind kinds kind ↔
    (∃ element, kind = .array element) ∧ kinds.Has ref kind := Iff.rfl

@[simp] theorem map_ofKind : (map ref).OfKind kinds kind ↔
    (∃ key content, kind = .map key content) ∧ kinds.Has ref kind := Iff.rfl

@[simp] theorem set_ofKind : (set ref).OfKind kinds kind ↔
    (∃ element, kind = .set element) ∧ kinds.Has ref kind := Iff.rfl

@[simp] theorem tuple_ofKind {items : List Value} : (tuple items).OfKind kinds kind ↔
    ∃ elements, kind = .tuple elements ∧ AllOfKinds kinds items elements := Iff.rfl

@[simp] theorem suggestion_ofKind {stamp : Nat} {steps : List Step} :
    (suggestion stamp steps).OfKind kinds kind ↔
      kind = .suggestion ∧ Step.AllOfKind kinds steps := Iff.rfl

theorem ofKind_text : value.OfKind kinds .text ↔ ∃ content, value = .text content := by
  cases value <;> simp

theorem ofKind_object : value.OfKind kinds .object ↔
    value = .null ∨ ∃ ref, value = .object ref ∧ kinds.Has ref .object := by
  cases value <;> simp

theorem ofKind_array {element : Kind} : value.OfKind kinds (.array element) ↔
    value = .null ∨ ∃ ref, value = .array ref ∧ kinds.Has ref (.array element) := by
  cases value <;> simp

theorem ofKind_map {key content : Kind} : value.OfKind kinds (.map key content) ↔
    value = .null ∨ ∃ ref, value = .map ref ∧ kinds.Has ref (.map key content) := by
  cases value <;> simp

theorem ofKind_set {element : Kind} : value.OfKind kinds (.set element) ↔
    value = .null ∨ ∃ ref, value = .set ref ∧ kinds.Has ref (.set element) := by
  cases value <;> simp

theorem ofKind_tuple {elements : List Kind} : value.OfKind kinds (.tuple elements) ↔
    ∃ items, value = .tuple items ∧ List.Forall₂ (OfKind kinds) items elements := by
  cases value <;> simp [allOfKinds_iff]

theorem ofKind_suggestion : value.OfKind kinds .suggestion ↔
    ∃ stamp steps, value = .suggestion stamp steps ∧ ∀ step ∈ steps, step.OfKind kinds := by
  cases value <;> simp [Step.allOfKind_iff]

end Value

end

end Attire
