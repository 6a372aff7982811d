import Attire.Code.Basic
import Attire.Machine.Heap

namespace Attire

/-! What code may do, and what values may mention. -/

structure Permit where
  new : ClassId → Prop
  call : MethodSlot → Prop
  superCall : ClassId → MethodSlot → Prop
  /-- The classes that may be put on objects and taken off. -/
  wear : ClassId → Prop
  const : Value → Prop
  /-- The fields that may be stored. -/
  store : FieldKey → Prop
  /-- Whether anything that exists may be changed. -/
  write : Prop

mutual

def Code.Within (permit : Permit) : Code → Prop
  | .num _ | .text _ | .bool _ | .null | .default _ _ | .local _ | .this | .caller | .newArray
  | .newMap | .newSet | .random => True
  | .tee _ value | .tupleGet value _ | .not value | .neg value | .cast value _ | .clone value
  | .len value | .is value _ => value.Within permit
  | .const value => permit.const value
  | .getField object _ _ => object.Within permit
  | .index object _ index _ => object.Within permit ∧ index.Within permit
  | .call object slot args _ =>
    permit.call slot ∧ object.Within permit ∧ Code.AllWithin permit args
  | .superCall parent slot args => permit.superCall parent slot ∧ Code.AllWithin permit args
  | .new cls => permit.new cls
  | .array elements | .tuple elements => Code.AllWithin permit elements
  | .arith _ left right | .concat left right | .compare _ left right | .equal _ left right
  | .logic _ left right | .merge left right => left.Within permit ∧ right.Within permit
  | .has collection key => collection.Within permit ∧ key.Within permit
  | .suggest steps => StepCode.AllWithin permit steps

def Code.AllWithin (permit : Permit) : List Code → Prop
  | [] => True
  | code :: rest => code.Within permit ∧ Code.AllWithin permit rest

def StepCode.Within (permit : Permit) : StepCode → Prop
  | .extend target cls | .retract target cls => permit.wear cls ∧ target.Within permit
  | .call target _ args => target.Within permit ∧ Code.AllWithin permit args

def StepCode.AllWithin (permit : Permit) : List StepCode → Prop
  | [] => True
  | step :: rest => step.Within permit ∧ StepCode.AllWithin permit rest

end

mutual

def Instr.Within (permit : Permit) : Instr → Prop
  | .eval code | .store _ code | .return code => code.Within permit
  | .setField object key value =>
    permit.write ∧ permit.store key ∧ object.Within permit ∧ value.Within permit
  | .setIndex target _ index value =>
    permit.write ∧ target.Within permit ∧ index.Within permit ∧ value.Within permit
  | .append target value | .remove target value =>
    permit.write ∧ target.Within permit ∧ value.Within permit
  | .branch cond yes no =>
    cond.Within permit ∧ Instr.AllWithin permit yes ∧ Instr.AllWithin permit no
  | .while cond body => cond.Within permit ∧ Instr.AllWithin permit body
  | .forEach source _ _ _ body => source.Within permit ∧ Instr.AllWithin permit body
  | .break | .continue | .release _ => True
  | .extend target cls | .retract target cls =>
    permit.write ∧ permit.wear cls ∧ target.Within permit
  | .enforce suggestion => permit.write ∧ suggestion.Within permit

def Instr.AllWithin (permit : Permit) : List Instr → Prop
  | [] => True
  | instr :: rest => instr.Within permit ∧ Instr.AllWithin permit rest

end

def Routine.Within (permit : Permit) (routine : Routine) : Prop :=
  Instr.AllWithin permit routine.body

theorem Code.allWithin_iff {permit : Permit} {codes : List Code} :
    Code.AllWithin permit codes ↔ ∀ code ∈ codes, code.Within permit := by
  induction codes with
  | nil => simp [Code.AllWithin]
  | cons code rest ih => simp [Code.AllWithin, ih]

theorem StepCode.allWithin_iff {permit : Permit} {steps : List StepCode} :
    StepCode.AllWithin permit steps ↔ ∀ step ∈ steps, step.Within permit := by
  induction steps with
  | nil => simp [StepCode.AllWithin]
  | cons step rest ih => simp [StepCode.AllWithin, ih]

def Permit.all : Permit where
  new _ := True
  call _ := True
  superCall _ _ := True
  wear _ := True
  const _ := True
  store _ := True
  write := True

mutual

theorem Code.within_all : ∀ code : Code, code.Within .all
  | .num _ | .text _ | .bool _ | .null | .default _ _ | .local _ | .this | .caller | .newArray
  | .newMap | .newSet | .random | .const _ | .new _ => trivial
  | .tee _ value | .tupleGet value _ | .not value | .neg value | .cast value _ | .clone value
  | .len value | .is value _ | .getField value _ _ => Code.within_all value
  | .index left _ right _ | .arith _ left right | .concat left right | .compare _ left right
  | .equal _ left right | .logic _ left right | .merge left right | .has left right =>
    ⟨Code.within_all left, Code.within_all right⟩
  | .call object _ args _ => ⟨trivial, Code.within_all object, Code.allWithin_all args⟩
  | .superCall _ _ args => ⟨trivial, Code.allWithin_all args⟩
  | .array elements | .tuple elements => Code.allWithin_all elements
  | .suggest steps => StepCode.allWithin_all steps

theorem Code.allWithin_all : ∀ codes : List Code, Code.AllWithin .all codes
  | [] => trivial
  | code :: rest => ⟨Code.within_all code, Code.allWithin_all rest⟩

theorem StepCode.within_all : ∀ code : StepCode, code.Within .all
  | .extend target _ | .retract target _ => ⟨trivial, Code.within_all target⟩
  | .call target _ args => ⟨Code.within_all target, Code.allWithin_all args⟩

theorem StepCode.allWithin_all : ∀ codes : List StepCode, StepCode.AllWithin .all codes
  | [] => trivial
  | code :: rest => ⟨StepCode.within_all code, StepCode.allWithin_all rest⟩

end

mutual

theorem Instr.within_all : ∀ instr : Instr, instr.Within .all
  | .eval code | .store _ code | .return code => code.within_all
  | .setField object _ value => ⟨trivial, trivial, object.within_all, value.within_all⟩
  | .setIndex target _ index value =>
    ⟨trivial, target.within_all, index.within_all, value.within_all⟩
  | .append target value | .remove target value =>
    ⟨trivial, target.within_all, value.within_all⟩
  | .branch cond yes no => ⟨cond.within_all, Instr.allWithin_all yes, Instr.allWithin_all no⟩
  | .while cond body | .forEach cond _ _ _ body => ⟨cond.within_all, Instr.allWithin_all body⟩
  | .break | .continue | .release _ => trivial
  | .extend target _ | .retract target _ => ⟨trivial, trivial, target.within_all⟩
  | .enforce suggestion => ⟨trivial, suggestion.within_all⟩

theorem Instr.allWithin_all : ∀ body : List Instr, Instr.AllWithin .all body
  | [] => trivial
  | instr :: rest => ⟨Instr.within_all instr, Instr.allWithin_all rest⟩

end

theorem Instr.allWithin_append {permit : Permit} {first second : List Instr} :
    Instr.AllWithin permit (first ++ second) ↔
      Instr.AllWithin permit first ∧ Instr.AllWithin permit second := by
  induction first with
  | nil => simp [Instr.AllWithin]
  | cons instr rest ih => simp [Instr.AllWithin, ih, and_assoc]

/-! `entity` says which entities a value may mention, `cls` which classes its steps may. -/

mutual

def Value.Within (entity : Value → Prop) (cls : ClassId → Prop) : Value → Prop
  | .null | .num _ | .bool _ | .text _ => True
  | .object ref => entity (.object ref)
  | .array ref => entity (.array ref)
  | .map ref => entity (.map ref)
  | .set ref => entity (.set ref)
  | .tuple items => Value.AllWithin entity cls items
  | .suggestion _ steps => Step.AllWithin entity cls steps

def Value.AllWithin (entity : Value → Prop) (cls : ClassId → Prop) : List Value → Prop
  | [] => True
  | value :: rest => value.Within entity cls ∧ Value.AllWithin entity cls rest

def Step.Within (entity : Value → Prop) (cls : ClassId → Prop) : Step → Prop
  | .extend target id | .retract target id => cls id ∧ target.Within entity cls
  | .call target caller _ args =>
    target.Within entity cls ∧ caller.Within entity cls ∧ Value.AllWithin entity cls args

def Step.AllWithin (entity : Value → Prop) (cls : ClassId → Prop) : List Step → Prop
  | [] => True
  | step :: rest => step.Within entity cls ∧ Step.AllWithin entity cls rest

end

section

variable {entity entity' : Value → Prop} {cls cls' : ClassId → Prop}

theorem Value.allWithin_iff {values : List Value} :
    Value.AllWithin entity cls values ↔ ∀ value ∈ values, value.Within entity cls := by
  induction values with
  | nil => simp [Value.AllWithin]
  | cons value rest ih => simp [Value.AllWithin, ih]

theorem Step.allWithin_iff {steps : List Step} :
    Step.AllWithin entity cls steps ↔ ∀ step ∈ steps, step.Within entity cls := by
  induction steps with
  | nil => simp [Step.AllWithin]
  | cons step rest ih => simp [Step.AllWithin, ih]

mutual

theorem Value.within_all : ∀ value : Value, value.Within (fun _ => True) fun _ => True
  | .null | .num _ | .bool _ | .text _ | .object _ | .array _ | .map _ | .set _ => trivial
  | .tuple items => Value.allWithin_all items
  | .suggestion _ steps => Step.allWithin_all steps

theorem Value.allWithin_all :
    ∀ values : List Value, Value.AllWithin (fun _ => True) (fun _ => True) values
  | [] => trivial
  | value :: rest => ⟨Value.within_all value, Value.allWithin_all rest⟩

theorem Step.within_all : ∀ step : Step, step.Within (fun _ => True) fun _ => True
  | .extend target _ | .retract target _ => ⟨trivial, Value.within_all target⟩
  | .call target caller _ args =>
    ⟨Value.within_all target, Value.within_all caller, Value.allWithin_all args⟩

theorem Step.allWithin_all :
    ∀ steps : List Step, Step.AllWithin (fun _ => True) (fun _ => True) steps
  | [] => trivial
  | step :: rest => ⟨Step.within_all step, Step.allWithin_all rest⟩

end

mutual

theorem Value.Within.imp (hentity : ∀ value, entity value → entity' value)
    (hcls : ∀ id, cls id → cls' id) :
    ∀ {value : Value}, value.Within entity cls → value.Within entity' cls'
  | .null, _ | .num _, _ | .bool _, _ | .text _, _ => trivial
  | .object _, h | .array _, h | .map _, h | .set _, h => hentity _ h
  | .tuple _, h => Value.AllWithin.imp hentity hcls h
  | .suggestion _ _, h => Step.AllWithin.imp hentity hcls h

theorem Value.AllWithin.imp (hentity : ∀ value, entity value → entity' value)
    (hcls : ∀ id, cls id → cls' id) :
    ∀ {values : List Value}, Value.AllWithin entity cls values →
      Value.AllWithin entity' cls' values
  | [], _ => trivial
  | _ :: _, h => ⟨h.1.imp hentity hcls, Value.AllWithin.imp hentity hcls h.2⟩

theorem Step.Within.imp (hentity : ∀ value, entity value → entity' value)
    (hcls : ∀ id, cls id → cls' id) :
    ∀ {step : Step}, step.Within entity cls → step.Within entity' cls'
  | .extend _ _, h | .retract _ _, h => ⟨hcls _ h.1, h.2.imp hentity hcls⟩
  | .call _ _ _ _, h =>
    ⟨h.1.imp hentity hcls, h.2.1.imp hentity hcls, Value.AllWithin.imp hentity hcls h.2.2⟩

theorem Step.AllWithin.imp (hentity : ∀ value, entity value → entity' value)
    (hcls : ∀ id, cls id → cls' id) :
    ∀ {steps : List Step}, Step.AllWithin entity cls steps → Step.AllWithin entity' cls' steps
  | [], _ => trivial
  | _ :: _, h => ⟨h.1.imp hentity hcls, Step.AllWithin.imp hentity hcls h.2⟩

end

end

end Attire
