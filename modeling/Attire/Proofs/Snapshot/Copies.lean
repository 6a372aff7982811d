import Attire.Proofs.Machine.Sound
import Attire.Proofs.Runs.Rules
import Attire.Snapshot.Capture
import Attire.Snapshot.Restore

namespace Attire

/-! Values that are rebuilt from what a snapshot shows of them. -/

/-! What may be in keys and what steps name. -/

mutual

/-- No suggestion is in the value. -/
def Value.Stampless : Value → Prop
  | .suggestion _ _ => False
  | .tuple items => Value.AllStampless items
  | _ => True

def Value.AllStampless : List Value → Prop
  | [] => True
  | item :: rest => item.Stampless ∧ Value.AllStampless rest

end

namespace Capture

mutual

/-- The classes that the steps in a value name. -/
def classesOf : Value → List ClassId
  | .tuple items => classesOfAll items
  | .suggestion _ steps => classesOfSteps steps
  | _ => []

def classesOfAll : List Value → List ClassId
  | [] => []
  | item :: rest => classesOf item ++ classesOfAll rest

def classesOfStep : Step → List ClassId
  | .extend target cls | .retract target cls => cls :: classesOf target
  | .call target caller slot args =>
    slot.origin :: (classesOf target ++ classesOf caller ++ classesOfAll args)

def classesOfSteps : List Step → List ClassId
  | [] => []
  | step :: rest => classesOfStep step ++ classesOfSteps rest

end

theorem mem_classesOfAll {cls : ClassId} {values : List Value} :
    cls ∈ classesOfAll values ↔ ∃ value ∈ values, cls ∈ classesOf value := by
  induction values with
  | nil => simp [classesOfAll]
  | cons value rest ih =>
    rw [classesOfAll, List.mem_append, ih]
    simp

end Capture

open Capture

/-- The copy shows the same, and mentions the twins of what the original mentions. -/
structure Value.Copies (source target : ClassRegistry) (twin : Ref → Ref) (original copy : Value) :
    Prop where
  shown : Capture.value target copy = Capture.value source original
  refs : Capture.refs copy = (Capture.refs original).map twin
  encoded : original.Stampless → copy.encode = original.encode
  key : original.Stampless → MapKey.ofValue copy = MapKey.ofValue original

section

variable {source target : ClassRegistry} {twin : Ref → Ref} {originals copies : List Value}

theorem values_eq_of_copies (h : List.Forall₂ (Value.Copies source target twin) originals copies) :
    values target copies = values source originals := by
  induction h with
  | nil => rfl
  | cons hfirst _ ih => rw [values, values, hfirst.shown, ih]

theorem refs_eq_of_copies (h : List.Forall₂ (Value.Copies source target twin) originals copies) :
    refsOfAll copies = (refsOfAll originals).map twin := by
  induction h with
  | nil => rfl
  | cons hfirst _ ih => rw [refsOfAll, refsOfAll, hfirst.refs, ih, List.map_append]

theorem encode_eq_of_copies (h : List.Forall₂ (Value.Copies source target twin) originals copies)
    (hplain : Value.AllStampless originals) :
    Value.encodeAll copies = Value.encodeAll originals := by
  induction h with
  | nil => rfl
  | cons hfirst _ ih =>
    rw [Value.encodeAll, Value.encodeAll, hfirst.encoded hplain.1, ih hplain.2]

theorem keys_eq_of_copies (h : List.Forall₂ (Value.Copies source target twin) originals copies)
    (hplain : ∀ original ∈ originals, original.Stampless) :
    copies.map MapKey.ofValue = originals.map MapKey.ofValue := by
  induction h with
  | nil => rfl
  | cons hfirst _ ih =>
    obtain ⟨hplainFirst, hplain⟩ := List.forall_mem_cons.mp hplain
    rw [List.map_cons, List.map_cons, hfirst.key hplainFirst, ih hplain]

theorem Value.Copies.tuple (h : List.Forall₂ (Value.Copies source target twin) originals copies) :
    Value.Copies source target twin (.tuple originals) (.tuple copies) where
  shown := congrArg SnapValue.tuple (values_eq_of_copies h)
  refs := refs_eq_of_copies h
  encoded hplain := by rw [Value.encode, Value.encode, encode_eq_of_copies h hplain]
  key hplain := by
    rw [MapKey.ofValue, MapKey.ofValue, Value.encode, Value.encode, encode_eq_of_copies h hplain]

end

namespace Restore

/-- A value of the kind of another one, in another place. -/
def moved (place : Ref) : Value → Value
  | .object _ => .object place
  | .array _ => .array place
  | .map _ => .map place
  | .set _ => .set place
  | value => value

/-- Where the entity with an identifier was rebuilt. -/
def placeOf (shells : Shells) (key : String) : Ref := (refOf? shells key).getD default

def twin (shells : Shells) (ref : Ref) : Ref := placeOf shells ref.id.text

/-- An entity that the value mentions was rebuilt. -/
def Houses (shells : Shells) (value : Value) : Prop :=
  ∃ ref place, value.ref? = some ref ∧ place.id = ref.id ∧
    shells.get? ref.id.text = some (moved place value)

/-- A class is found under the name of another one. -/
def Finds (source target : ClassRegistry) (cls : ClassId) : Prop :=
  ∃ found, target.find? (source.qualifiedNameOf cls) = some found ∧
    target.qualifiedNameOf found = source.qualifiedNameOf cls

theorem placeOf_eq {shells : Shells} {key : String} {value : Value} {place : Ref}
    (hshell : shells.get? key = some value) (hplace : value.ref? = some place) :
    placeOf shells key = place := by
  rw [placeOf, refOf?, hshell, Option.bind_some, hplace, Option.getD_some]

theorem ref?_moved {value : Value} {ref place : Ref} (h : value.ref? = some ref) :
    (moved place value).ref? = some place := by
  cases value <;> simp_all [Value.ref?, moved]

theorem copies_moved {source target : ClassRegistry} {shells : Shells} {value : Value}
    {ref place : Ref} (href : value.ref? = some ref) (hid : place.id = ref.id)
    (hshell : shells.get? ref.id.text = some (moved place value)) :
    value.Copies source target (twin shells) (moved place value) := by
  have htwin : twin shells ref = place := placeOf_eq hshell (ref?_moved href)
  cases value with
  | object | array | map | set =>
    cases href
    constructor
    case shown => simp [moved, Capture.value, hid]
    case refs => simp [moved, Capture.refs, htwin]
    case encoded => simp [moved, Value.encode, hid]
    case key => simp [moved, MapKey.ofValue, hid]
  | _ => cases href

variable {source target : ClassRegistry} {shells : Shells} {machine after : Machine}

/-- Nothing but the number of suggestions made changes. -/
def Suggests (machine after : Machine) : Prop :=
  ∃ suggestions, after = { machine with suggestions }

theorem Suggests.refl (machine : Machine) : Suggests machine machine := ⟨_, rfl⟩

theorem Suggests.trans {middle : Machine} (h : Suggests machine middle)
    (h' : Suggests middle after) : Suggests machine after := by
  obtain ⟨_, rfl⟩ := h
  obtain ⟨suggestions, rfl⟩ := h'
  exact ⟨suggestions, rfl⟩

theorem Suggests.classes (h : Suggests machine after) : after.classes = machine.classes := by
  obtain ⟨_, rfl⟩ := h
  rfl

theorem Suggests.heap (h : Suggests machine after) : after.heap = machine.heap := by
  obtain ⟨_, rfl⟩ := h
  rfl

theorem findClass_succeeds (hmachine : machine.classes = target) {name : String} {found : ClassId}
    (h : target.find? name = some found) :
    Machine.Succeeds (findClass name) machine fun cls after => cls = found ∧ after = machine := by
  unfold findClass
  refine Machine.Succeeds.bind_get ?_
  rw [hmachine, h]
  exact ⟨rfl, rfl⟩

mutual

theorem value_succeeds : ∀ (original : Value) {machine : Machine}, machine.classes = target →
    original.Within (Houses shells) (fun _ => True) →
    (∀ cls ∈ classesOf original, Finds source target cls) →
    Machine.Succeeds (value shells (Capture.value source original)) machine fun copy after =>
      original.Copies source target (twin shells) copy ∧ Suggests machine after
  | .null, _, _, _, _ | .num _, _, _, _, _ | .bool _, _, _, _, _ | .text _, _, _, _, _ =>
    ⟨⟨rfl, rfl, fun _ => rfl, fun _ => rfl⟩, .refl _⟩
  | .object _, _, _, h, _ | .array _, _, _, h, _ | .map _, _, _, h, _ | .set _, _, _, h, _ => by
    obtain ⟨ref, place, ⟨⟩, hid, hshell⟩ := h
    rw [Capture.value, value, hshell]
    exact ⟨copies_moved rfl hid hshell, .refl _⟩
  | .tuple items, _, hmachine, h, hclasses => by
    rw [Capture.value, value]
    refine (values_succeeds items hmachine h hclasses).bind fun copies after hcopies => ?_
    exact ⟨.tuple hcopies.1, hcopies.2⟩
  | .suggestion stamp steps, _, hmachine, h, hclasses => by
    rw [Capture.value, value]
    refine (stepsOf_succeeds steps hmachine h hclasses).bind fun copies after hcopies => ?_
    obtain ⟨⟨hshown, hrefs⟩, hafter⟩ := hcopies
    refine ⟨⟨?_, ?_, nofun, nofun⟩, hafter.trans ⟨_, rfl⟩⟩
    · exact congrArg SnapValue.suggestion hshown
    · exact hrefs

theorem values_succeeds : ∀ (originals : List Value) {machine : Machine},
    machine.classes = target → Value.AllWithin (Houses shells) (fun _ => True) originals →
    (∀ cls ∈ classesOfAll originals, Finds source target cls) →
    Machine.Succeeds (values shells (Capture.values source originals)) machine fun copies after =>
      List.Forall₂ (Value.Copies source target (twin shells)) originals copies ∧
        Suggests machine after
  | [], _, _, _, _ => ⟨.nil, .refl _⟩
  | original :: rest, _, hmachine, h, hclasses => by
    rw [Capture.values, values]
    refine (value_succeeds original hmachine h.1 fun cls hmem =>
      hclasses cls (List.mem_append_left _ hmem)).bind fun copy after hcopy => ?_
    obtain ⟨hcopy, hafter⟩ := hcopy
    refine (values_succeeds rest (hafter.classes.trans hmachine) h.2 fun cls hmem =>
      hclasses cls (List.mem_append_right _ hmem)).bind fun copies after hcopies => ?_
    exact ⟨.cons hcopy hcopies.1, hafter.trans hcopies.2⟩

theorem step_succeeds : ∀ (original : Step) {machine : Machine}, machine.classes = target →
    original.Within (Houses shells) (fun _ => True) →
    (∀ cls ∈ classesOfStep original, Finds source target cls) →
    Machine.Succeeds (step shells (Capture.step source original)) machine fun copy after =>
      (Capture.step target copy = Capture.step source original ∧
        refsOfStep copy = (refsOfStep original).map (twin shells)) ∧ Suggests machine after
  | .extend place cls, _, hmachine, h, hclasses | .retract place cls, _, hmachine, h, hclasses => by
    obtain ⟨found, hfind, hname⟩ := hclasses cls (List.mem_cons_self ..)
    unfold Capture.step
    rw [step]
    refine (value_succeeds place hmachine h.2 fun cls hmem =>
      hclasses cls (List.mem_cons_of_mem _ hmem)).bind fun copy after hcopy => ?_
    obtain ⟨hcopy, hafter⟩ := hcopy
    refine (findClass_succeeds (hafter.classes.trans hmachine) hfind).bind fun cls after' hcls => ?_
    obtain ⟨rfl, rfl⟩ := hcls
    refine ⟨⟨?_, hcopy.refs⟩, hafter⟩
    dsimp only
    rw [hcopy.shown, hname]
  | .call place caller slot args, _, hmachine, h, hclasses => by
    obtain ⟨found, hfind, hname⟩ := hclasses slot.origin (List.mem_cons_self ..)
    have hinner : ∀ cls ∈ classesOf place ++ classesOf caller ++ classesOfAll args,
        Finds source target cls := fun cls hmem => hclasses cls (List.mem_cons_of_mem _ hmem)
    rw [Capture.step, step]
    refine (value_succeeds place hmachine h.1 fun cls hmem => hinner cls
      (List.mem_append_left _ (List.mem_append_left _ hmem))).bind fun place' after hplace => ?_
    obtain ⟨hplace, hafter⟩ := hplace
    refine (value_succeeds caller (hafter.classes.trans hmachine) h.2.1 fun cls hmem => hinner cls
      (List.mem_append_left _ (List.mem_append_right _ hmem))).bind fun caller' after' hcaller => ?_
    obtain ⟨hcaller, hafter'⟩ := hcaller
    have hmiddle := hafter.trans hafter'
    refine (findClass_succeeds (hmiddle.classes.trans hmachine) hfind).bind fun cls _ hcls => ?_
    obtain ⟨rfl, rfl⟩ := hcls
    refine (values_succeeds args (hmiddle.classes.trans hmachine) h.2.2 fun cls hmem => hinner cls
      (List.mem_append_right _ hmem)).bind fun args' after'' hargs => ?_
    obtain ⟨hargs, hafter''⟩ := hargs
    refine ⟨⟨?_, ?_⟩, hmiddle.trans hafter''⟩
    · rw [Capture.step, hplace.shown, hcaller.shown, hname, values_eq_of_copies hargs]
    · rw [refsOfStep, refsOfStep, hplace.refs, hcaller.refs, refs_eq_of_copies hargs,
        List.map_append, List.map_append]

theorem stepsOf_succeeds : ∀ (originals : List Step) {machine : Machine},
    machine.classes = target → Step.AllWithin (Houses shells) (fun _ => True) originals →
    (∀ cls ∈ classesOfSteps originals, Finds source target cls) →
    Machine.Succeeds (stepsOf shells (Capture.stepsOf source originals)) machine fun copies after =>
      (Capture.stepsOf target copies = Capture.stepsOf source originals ∧
        refsOfSteps copies = (refsOfSteps originals).map (twin shells)) ∧ Suggests machine after
  | [], _, _, _, _ => ⟨⟨rfl, rfl⟩, .refl _⟩
  | original :: rest, _, hmachine, h, hclasses => by
    rw [Capture.stepsOf, stepsOf]
    refine (step_succeeds original hmachine h.1 fun cls hmem =>
      hclasses cls (List.mem_append_left _ hmem)).bind fun copy after hcopy => ?_
    obtain ⟨⟨hshown, hrefs⟩, hafter⟩ := hcopy
    refine (stepsOf_succeeds rest (hafter.classes.trans hmachine) h.2 fun cls hmem =>
      hclasses cls (List.mem_append_right _ hmem)).bind fun copies after hcopies => ?_
    obtain ⟨⟨hshown', hrefs'⟩, hafter'⟩ := hcopies
    refine ⟨⟨?_, ?_⟩, hafter.trans hafter'⟩
    · rw [Capture.stepsOf, hshown, hshown']
    · rw [refsOfSteps, refsOfSteps, hrefs, hrefs', List.map_append]

end

end Restore

end Attire
