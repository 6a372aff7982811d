import Attire.Proofs.Kinds.Heaps
import Mathlib.Logic.Function.Basic

namespace Attire

/-! Code whose parts are of the kinds that they are used at. -/

/-- The kinds of what the slots of a frame hold.  Where none is given, a slot may hold anything. -/
abbrev Layout := Nat → Option Kind

namespace Layout

/-- The second layout says as much as the first one. -/
def Keeps (layout next : Layout) : Prop :=
  ∀ slot kind, layout slot = some kind → next slot = some kind

/-- Arguments come in the first slots. -/
def ofParams (params : List Kind) : Layout := fun slot => params[slot]?

def put (layout : Layout) (slot : Nat) (kind : Kind) : Layout :=
  Function.update layout slot (some kind)

/-- The slot is free for values of the kind, or holds one. -/
def Takes (layout : Layout) (slot : Nat) (kind : Kind) : Prop :=
  layout slot = none ∨ layout slot = some kind

variable {layout next last : Layout} {slot : Nat} {kind : Kind}

theorem Keeps.refl (layout : Layout) : layout.Keeps layout := fun _ _ h => h

theorem Keeps.trans (h : layout.Keeps next) (h' : next.Keeps last) : layout.Keeps last :=
  fun slot kind hslot => h' slot kind (h slot kind hslot)

theorem put_self : (layout.put slot kind) slot = some kind := Function.update_self ..

theorem put_of_ne {other : Nat} (hne : other ≠ slot) : (layout.put slot kind) other = layout other :=
  Function.update_of_ne hne ..

theorem put_of_eq (h : layout slot = some kind) : layout.put slot kind = layout :=
  Function.update_eq_self_iff.mpr h.symm

theorem Takes.keeps (h : layout.Takes slot kind) : layout.Keeps (layout.put slot kind) := by
  intro other found hfound
  by_cases heq : other = slot
  · subst heq
    rcases h with h | h
    · rw [h] at hfound
      cases hfound
    · rw [put_self, ← h, hfound]
  · rw [put_of_ne heq, hfound]

end Layout

mutual

/-- The value of the code is of the kind. -/
inductive Code.Kinded (base : Kinds) (layout : Layout) : Code → Kind → Prop
  | num {number : Float} : Code.Kinded base layout (.num number) .num
  | text {content : String} : Code.Kinded base layout (.text content) .text
  | bool {value : Bool} : Code.Kinded base layout (.bool value) .bool
  | null {kind : Kind} : kind.isNullable → Code.Kinded base layout .null kind
  | default {ty : Ty} {constructed : Bool} {kind : Kind} : ty.kind? = some kind →
      Code.Kinded base layout (.default ty constructed) kind
  | local {slot : Nat} {kind : Kind} : layout slot = some kind →
      Code.Kinded base layout (.local slot) kind
  | this : Code.Kinded base layout .this .object
  | caller : Code.Kinded base layout .caller .object
  | const {value : Value} {kind : Kind} : value.OfKind base kind →
      Code.Kinded base layout (.const value) kind
  | getField {object : Code} {key : FieldKey} {ty : Ty} {kind : Kind} :
      Code.Kinded base layout object .object → base.Holds key kind → ty.kind? = some kind →
      Code.Kinded base layout (.getField object key ty) kind
  | index {object index : Code} {by' : IndexKind} {ty : Ty} {of indexOf kind : Kind} :
      Code.Kinded base layout object of → Code.Kinded base layout index indexOf →
      of.Indexed by' indexOf kind → ty.kind? = some kind →
      Code.Kinded base layout (.index object by' index ty) kind
  | tupleGet {tuple : Code} {position : Nat} {elements : List Kind} {kind : Kind} :
      Code.Kinded base layout tuple (.tuple elements) → elements[position]? = some kind →
      Code.Kinded base layout (.tupleGet tuple position) kind
  | call {object : Code} {slot : MethodSlot} {args : List Code} {ret : Ty} {params : List Kind}
      {kind : Kind} :
      Code.Kinded base layout object .object → base.Takes slot params kind → ret.kind? = some kind →
      List.Forall₂ (Code.Kinded base layout) args params →
      Code.Kinded base layout (.call object slot args ret) kind
  | superCall {parent : ClassId} {slot : MethodSlot} {args : List Code} {params : List Kind}
      {kind : Kind} :
      base.classes.contains parent → base.Takes slot params kind →
      List.Forall₂ (Code.Kinded base layout) args params →
      Code.Kinded base layout (.superCall parent slot args) kind
  | new {cls : ClassId} : Code.Kinded base layout (.new cls) .object
  | newArray {element : Kind} : Code.Kinded base layout .newArray (.array element)
  | newMap {key value : Kind} : Code.Kinded base layout .newMap (.map key value)
  | newSet {element : Kind} : Code.Kinded base layout .newSet (.set element)
  | array {elements : List Code} {element : Kind} :
      (∀ code ∈ elements, Code.Kinded base layout code element) →
      Code.Kinded base layout (.array elements) (.array element)
  | tuple {elements : List Code} {all : List Kind} :
      List.Forall₂ (Code.Kinded base layout) elements all →
      Code.Kinded base layout (.tuple elements) (.tuple all)
  | arith {op : ArithOp} {left right : Code} {kind kind' : Kind} :
      Code.Kinded base layout left kind → Code.Kinded base layout right kind' →
      Code.Kinded base layout (.arith op left right) .num
  | concat {left right : Code} {kind kind' : Kind} :
      Code.Kinded base layout left kind → Code.Kinded base layout right kind' →
      Code.Kinded base layout (.concat left right) .text
  | compare {op : CompareOp} {left right : Code} {kind kind' : Kind} :
      Code.Kinded base layout left kind → Code.Kinded base layout right kind' →
      Code.Kinded base layout (.compare op left right) .bool
  | equal {negate : Bool} {left right : Code} {kind kind' : Kind} :
      Code.Kinded base layout left kind → Code.Kinded base layout right kind' →
      Code.Kinded base layout (.equal negate left right) .bool
  | logic {conjunction : Bool} {left right : Code} {kind kind' : Kind} :
      Code.Kinded base layout left kind → Code.Kinded base layout right kind' →
      Code.Kinded base layout (.logic conjunction left right) .bool
  | not {operand : Code} {kind : Kind} :
      Code.Kinded base layout operand kind → Code.Kinded base layout (.not operand) .bool
  | neg {operand : Code} {kind : Kind} :
      Code.Kinded base layout operand kind → Code.Kinded base layout (.neg operand) .num
  | merge {left right : Code} {kind kind' : Kind} :
      Code.Kinded base layout left kind → Code.Kinded base layout right kind' →
      Code.Kinded base layout (.merge left right) .suggestion
  | clone {value : Code} {kind : Kind} :
      Code.Kinded base layout value kind → Code.Kinded base layout (.clone value) kind
  | len {value : Code} {kind : Kind} :
      Code.Kinded base layout value kind → Code.Kinded base layout (.len value) .num
  | has {collection key : Code} {kind kind' : Kind} :
      Code.Kinded base layout collection kind → Code.Kinded base layout key kind' →
      Code.Kinded base layout (.has collection key) .bool
  | random : Code.Kinded base layout .random .num
  | is {value : Code} {cls : ClassId} {kind : Kind} :
      Code.Kinded base layout value kind → Code.Kinded base layout (.is value cls) .bool
  | suggest {steps : List StepCode} : (∀ step ∈ steps, StepCode.Kinded base layout step) →
      Code.Kinded base layout (.suggest steps) .suggestion

inductive StepCode.Kinded (base : Kinds) (layout : Layout) : StepCode → Prop
  | extend {target : Code} {cls : ClassId} : Code.Kinded base layout target .object →
      StepCode.Kinded base layout (.extend target cls)
  | retract {target : Code} {cls : ClassId} : Code.Kinded base layout target .object →
      StepCode.Kinded base layout (.retract target cls)
  | call {target : Code} {slot : MethodSlot} {args : List Code} {params : List Kind} {ret : Kind} :
      Code.Kinded base layout target .object → base.Takes slot params ret →
      List.Forall₂ (Code.Kinded base layout) args params →
      StepCode.Kinded base layout (.call target slot args)

end

/-- The value of the operand is of the kind; it may be kept in a slot of a frame of `count` slots. -/
inductive Code.Lays (base : Kinds) (count : Nat) (layout : Layout) : Code → Kind → Layout → Prop
  | plain {code : Code} {kind : Kind} : code.Kinded base layout kind →
      Lays base count layout code kind layout
  | tee {slot : Nat} {value : Code} {kind : Kind} : value.Kinded base layout kind →
      layout slot = none → slot < count →
      Lays base count layout (.tee slot value) kind (layout.put slot kind)

mutual

/-- The statement keeps slots to their kinds, in a frame of `count` slots, and what it returns is of
the kind `ret`. -/
inductive Instr.Kinded (base : Kinds) (count : Nat) (ret : Kind) : Layout → Instr → Layout → Prop
  | eval {layout : Layout} {code : Code} {kind : Kind} : code.Kinded base layout kind →
      Kinded base count ret layout (.eval code) layout
  | store {layout : Layout} {slot : Nat} {value : Code} {kind : Kind} :
      value.Kinded base layout kind → slot < count → layout.Takes slot kind →
      Kinded base count ret layout (.store slot value) (layout.put slot kind)
  | setField {layout layout' : Layout} {object value : Code} {key : FieldKey} {kind : Kind} :
      object.Lays base count layout .object layout' → base.Holds key kind →
      value.Kinded base layout' kind →
      Kinded base count ret layout (.setField object key value) layout
  | setIndex {layout layout' layout'' : Layout} {target index value : Code} {by' : IndexKind}
      {of indexOf kind : Kind} :
      target.Lays base count layout of layout' → index.Lays base count layout' indexOf layout'' →
      of.Indexed by' indexOf kind → value.Kinded base layout'' kind →
      Kinded base count ret layout (.setIndex target by' index value) layout
  | append {layout : Layout} {target value : Code} {of kind : Kind} :
      target.Kinded base layout of → of.Gathers kind → value.Kinded base layout kind →
      Kinded base count ret layout (.append target value) layout
  | remove {layout : Layout} {target value : Code} {of kind : Kind} :
      target.Kinded base layout of → value.Kinded base layout kind →
      Kinded base count ret layout (.remove target value) layout
  | branch {layout layout' layout'' : Layout} {cond : Code} {yes no : List Instr} {kind : Kind} :
      cond.Kinded base layout kind → AllKinded base count ret layout yes layout' →
      AllKinded base count ret layout no layout'' →
      Kinded base count ret layout (.branch cond yes no) layout
  | while {layout layout' : Layout} {cond : Code} {body : List Instr} {kind : Kind} :
      cond.Kinded base layout kind → AllKinded base count ret layout body layout' →
      Kinded base count ret layout (.while cond body) layout
  | forOne {layout layout' : Layout} {source : Code} {by' : IterKind} {first : Nat}
      {body : List Instr} {of kind : Kind} :
      source.Kinded base layout of → of.Walked by' false kind none → first < count →
      layout.Takes first kind → AllKinded base count ret (layout.put first kind) body layout' →
      Kinded base count ret layout (.forEach source by' first none body) layout
  | forTwo {layout layout' : Layout} {source : Code} {by' : IterKind} {first second : Nat}
      {body : List Instr} {of kind kind' : Kind} :
      source.Kinded base layout of → of.Walked by' true kind (some kind') → first < count →
      layout.Takes first kind → second < count → (layout.put first kind).Takes second kind' →
      AllKinded base count ret ((layout.put first kind).put second kind') body layout' →
      Kinded base count ret layout (.forEach source by' first (some second) body) layout
  | break {layout : Layout} : Kinded base count ret layout .break layout
  | continue {layout : Layout} : Kinded base count ret layout .continue layout
  | return {layout : Layout} {code : Code} : code.Kinded base layout ret →
      Kinded base count ret layout (.return code) layout
  | extend {layout : Layout} {target : Code} {cls : ClassId} :
      target.Kinded base layout .object →
      Kinded base count ret layout (.extend target cls) layout
  | retract {layout : Layout} {target : Code} {cls : ClassId} :
      target.Kinded base layout .object →
      Kinded base count ret layout (.retract target cls) layout
  | enforce {layout : Layout} {suggestion : Code} {kind : Kind} :
      suggestion.Kinded base layout kind →
      Kinded base count ret layout (.enforce suggestion) layout
  | release {layout : Layout} {slots : List Nat} : (∀ slot ∈ slots, layout slot = none) →
      Kinded base count ret layout (.release slots) layout

inductive Instr.AllKinded (base : Kinds) (count : Nat) (ret : Kind) :
    Layout → List Instr → Layout → Prop
  | nil {layout : Layout} : AllKinded base count ret layout [] layout
  | cons {layout next last : Layout} {instr : Instr} {rest : List Instr} :
      Instr.Kinded base count ret layout instr next → AllKinded base count ret next rest last →
      AllKinded base count ret layout (instr :: rest) last

end

/-- The routine takes arguments of these kinds, and what it answers is of the last kind. -/
structure Routine.Kinded (base : Kinds) (params : List Kind) (ret : Kind) (routine : Routine) :
    Prop where
  arity : routine.arity = params.length
  answer : routine.ret.kind? = some ret
  body : ∃ last, Instr.AllKinded base (max routine.slots routine.arity) ret (.ofParams params)
    routine.body last

variable {base : Kinds} {count : Nat} {ret kind : Kind} {layout next : Layout}

theorem Code.Lays.keeps {code : Code} (h : code.Lays base count layout kind next) :
    layout.Keeps next := by
  cases h with
  | plain => exact .refl layout
  | tee _ hslot => exact Layout.Takes.keeps (.inl hslot)

theorem Instr.Kinded.keeps {instr : Instr} (h : instr.Kinded base count ret layout next) :
    layout.Keeps next := by
  cases h with
  | store _ _ htakes => exact htakes.keeps
  | _ => exact .refl layout

theorem Instr.AllKinded.keeps {body : List Instr} :
    ∀ {layout next : Layout}, Instr.AllKinded base count ret layout body next → layout.Keeps next := by
  induction body with
  | nil =>
    intro layout next h
    cases h
    exact .refl layout
  | cons instr rest ih =>
    intro layout next h
    cases h with
    | cons hinstr hrest => exact hinstr.keeps.trans (ih hrest)

theorem Instr.AllKinded.append {first second : List Instr} :
    ∀ {layout next last : Layout}, Instr.AllKinded base count ret layout first next →
      Instr.AllKinded base count ret next second last →
      Instr.AllKinded base count ret layout (first ++ second) last := by
  induction first with
  | nil =>
    intro layout next last h h'
    cases h
    exact h'
  | cons instr rest ih =>
    intro layout next last h h'
    cases h with
    | cons hinstr hrest => exact .cons hinstr (ih hrest h')

/-- Every slot that has a kind holds a value of it, and the parties are objects. -/
structure Frame.Kinded (kinds : Kinds) (count : Nat) (layout : Layout) (frame : Frame) : Prop where
  size : count ≤ frame.slots.size
  slots {slot : Nat} {kind : Kind} : layout slot = some kind → (frame.get slot).OfKind kinds kind
  this : frame.this.OfKind kinds .object
  caller : frame.caller.OfKind kinds .object

namespace Frame.Kinded

variable {kinds later : Kinds} {frame : Frame} {slot : Nat} {value : Value}

theorem mono (hle : kinds ≤ later) (h : frame.Kinded kinds count layout) :
    frame.Kinded later count layout :=
  ⟨h.size, fun hslot => (h.slots hslot).mono hle, h.this.mono hle, h.caller.mono hle⟩

theorem restrict (hkeeps : layout.Keeps next) (h : frame.Kinded kinds count next) :
    frame.Kinded kinds count layout :=
  ⟨h.size, fun hslot => h.slots (hkeeps _ _ hslot), h.this, h.caller⟩

theorem put (h : frame.Kinded kinds count layout) (hslot : slot < count)
    (hvalue : value.OfKind kinds kind) :
    (frame.set slot value).Kinded kinds count (layout.put slot kind) where
  size := by simpa [Frame.set] using h.size
  slots {other found} hother := by
    by_cases heq : other = slot
    · subst heq
      rw [Layout.put_self] at hother
      cases hother
      have hlt := Nat.lt_of_lt_of_le hslot h.size
      simpa [Frame.get, Frame.set, Array.getElem?_setIfInBounds, hlt] using hvalue
    · rw [Layout.put_of_ne heq] at hother
      have hget : (frame.set slot value).get other = frame.get other := by
        simp [Frame.get, Frame.set, Array.getElem?_setIfInBounds_ne (Ne.symm heq)]
      exact hget ▸ h.slots hother
  this := h.this
  caller := h.caller

/-- A slot without a kind may be overwritten with anything. -/
theorem clear (h : frame.Kinded kinds count layout) (hslot : layout slot = none) (value : Value) :
    (frame.set slot value).Kinded kinds count layout where
  size := by simpa [Frame.set] using h.size
  slots {other found} hother := by
    have hne : slot ≠ other := by
      rintro rfl
      rw [hslot] at hother
      cases hother
    have hget : (frame.set slot value).get other = frame.get other := by
      simp [Frame.get, Frame.set, Array.getElem?_setIfInBounds_ne hne]
    exact hget ▸ h.slots hother
  this := h.this
  caller := h.caller

theorem ofRoutine {routine : Routine} {params : List Kind} {this caller : Value}
    {args : List Value} (hroutine : routine.Kinded base params ret)
    (hthis : this.OfKind kinds .object) (hcaller : caller.OfKind kinds .object)
    (hargs : List.Forall₂ (Value.OfKind kinds) args params) :
    (Frame.ofRoutine routine this caller args).Kinded kinds (max routine.slots routine.arity)
      (.ofParams params) where
  size := by
    simp only [Frame.ofRoutine, List.size_toArray, List.length_append, List.length_replicate]
    omega
  slots {slot kind} hslot := by
    obtain ⟨hlt, rfl⟩ := List.getElem?_eq_some_iff.mp hslot
    have hlength : args.length = routine.arity := hargs.length_eq.trans hroutine.arity.symm
    have hget : (Frame.ofRoutine routine this caller args).get slot =
        args.get ⟨slot, hargs.length_eq ▸ hlt⟩ := by
      have htake : args.take routine.arity = args := List.take_of_length_le hlength.le
      simp only [Frame.get, Frame.ofRoutine, htake, List.getElem?_toArray]
      rw [List.getElem?_append_left (hargs.length_eq ▸ hlt), List.getElem?_eq_getElem]
      rfl
    rw [hget]
    exact hargs.get _ hlt
  this := hthis
  caller := hcaller

end Frame.Kinded

end Attire
