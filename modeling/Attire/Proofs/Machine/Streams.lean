import Attire.Proofs.Import.Moves
import Attire.Proofs.Machine.Tally
import Attire.Proofs.Snapshot.Phases
import Mathlib.Logic.Function.Iterate

namespace Attire

open Machine

namespace RandomStream

/-! The states of a random stream in a tick are a chain of hashes, whose seed is made of nothing but
the identifier and the tick.  Nothing here depends on what the hash is. -/

variable {stream : RandomStream} {id : Id} {tick index : Nat}

def chain (id : Id) (tick index : Nat) : List UInt8 := Sha256.digest^[index] (seed id tick)

/-- The number at an index among those of an identifier and a tick. -/
def number (id : Id) (tick index : Nat) : Float := fraction (chain id tick index)

/-- So many numbers were drawn in the tick. -/
def Drew (stream : RandomStream) (id : Id) (tick : Nat) : Nat → Prop
  | 0 => stream.tick ≠ some tick
  | index + 1 => stream = { tick := some tick, state := chain id tick index }

theorem chain_succ (id : Id) (tick index : Nat) :
    chain id tick (index + 1) = Sha256.digest (chain id tick index) :=
  Function.iterate_succ_apply' ..

theorem Drew.next_eq (h : stream.Drew id tick index) :
    stream.next id tick =
      (number id tick index, { tick := some tick, state := chain id tick index }) := by
  cases index with
  | zero => rw [next, if_neg h]; rfl
  | succ index =>
    obtain rfl := h
    rw [next, if_pos rfl, number, chain_succ]

theorem Drew.next (h : stream.Drew id tick index) :
    (stream.next id tick).2.Drew id tick (index + 1) := by
  rw [h.next_eq]
  exact rfl

/-- The first eight bytes as a word. -/
theorem foldl_lt (bytes : List UInt8) (word : Nat) :
    bytes.foldl (fun word byte => 256 * word + byte.toNat) word <
      (word + 1) * 256 ^ bytes.length := by
  induction bytes generalizing word with
  | nil => simp
  | cons byte rest ih =>
    have hbyte : byte.toNat < 256 := byte.toNat_lt
    calc rest.foldl (fun word byte => 256 * word + byte.toNat) (256 * word + byte.toNat)
        < (256 * word + byte.toNat + 1) * 256 ^ rest.length := ih _
      _ ≤ ((word + 1) * 256) * 256 ^ rest.length := Nat.mul_le_mul_right _ (by omega)
      _ = (word + 1) * 256 ^ (rest.length + 1) := by rw [Nat.pow_succ']; exact Nat.mul_assoc ..

theorem numerator_lt (state : List UInt8) : numerator state < 2 ^ 53 := by
  have hlength : (state.take 8).length ≤ 8 := List.length_take_le 8 state
  have hword := Nat.lt_of_lt_of_le (foldl_lt (state.take 8) 0)
    (Nat.mul_le_mul_left 1 (Nat.pow_le_pow_right (by decide) hlength))
  rw [numerator, Nat.shiftRight_eq_div_pow]
  exact Nat.div_lt_of_lt_mul hword

end RandomStream

/-! Random streams move when a number is drawn, and at no other time. -/

/-- What is no object has a stream from which nothing is drawn. -/
def Entity.stream : Entity → RandomStream
  | .object content => content.random
  | _ => {}

namespace Heap

variable {heap : Heap} {id : Id} {ref : Ref} {entity : Entity} {object : Object}
variable {container : Value}

def stream (heap : Heap) (address : Nat) : RandomStream :=
  ((heap.cells[address]?).map fun cell => cell.entity.stream).getD {}

theorem stream_of_object? (h : heap.object? ref = some object) :
    heap.stream ref.address = object.random := by
  obtain ⟨cell, hcell, hentity⟩ := entity?_eq_some.mp (object?_eq_some.mp h)
  simp [stream, hcell, hentity, Entity.stream]

theorem stream_alloc (h : entity.stream = {}) : (heap.alloc id entity).2.stream = heap.stream := by
  funext address
  simp only [stream, alloc, Array.getElem?_push]
  split
  case isTrue heq => simp [heq, h]
  case isFalse => rfl

theorem stream_modify {change : Entity → Entity}
    (h : ∀ entity, (change entity).stream = entity.stream) :
    (heap.modify ref change).stream = heap.stream := by
  funext address
  simp only [stream, cell_modify]
  split
  · cases heap.cells[address]? with
    | none => rfl
    | some cell => exact h cell.entity
  · rfl

theorem stream_modifyObject {change : Object → Object}
    (h : ∀ object, (change object).random = object.random) :
    (heap.modifyObject ref change).stream = heap.stream :=
  stream_modify fun entity => by
    cases entity with
    | object object => exact h object
    | _ => rfl

@[simp] theorem stream_modifyArray (ref : Ref) (change : Array Value → Array Value) :
    (heap.modifyArray ref change).stream = heap.stream :=
  stream_modify fun entity => by cases entity <;> rfl

@[simp] theorem stream_modifyMap (ref : Ref) (change : MapEntries → MapEntries) :
    (heap.modifyMap ref change).stream = heap.stream :=
  stream_modify fun entity => by cases entity <;> rfl

@[simp] theorem stream_modifySet (ref : Ref) (change : SetEntries → SetEntries) :
    (heap.modifySet ref change).stream = heap.stream :=
  stream_modify fun entity => by cases entity <;> rfl

theorem stream_putElement {kind : IndexKind} {index value : Value} :
    (heap.putElement container kind index value).stream = heap.stream := by
  unfold putElement
  split <;> simp

theorem stream_addElement {value : Value} :
    (heap.addElement container value).stream = heap.stream := by
  unfold addElement
  split <;> simp

theorem stream_removeElement {key : MapKey} :
    (heap.removeElement container key).stream = heap.stream := by
  unfold removeElement
  split <;> simp

theorem stream_writeField {key : FieldKey} {value : Value} :
    (writeField container key value heap).stream = heap.stream := by
  unfold writeField
  split
  · exact stream_modifyObject fun object => by split <;> rfl
  · rfl

/-- A draw moves the stream of its object. -/
theorem stream_draw (h : heap.object? ref = some object) (random : RandomStream) :
    (heap.modifyObject ref fun object => { object with random }).stream =
      Function.update heap.stream ref.address random := by
  obtain ⟨cell, hcell, hentity⟩ := entity?_eq_some.mp (object?_eq_some.mp h)
  funext address
  by_cases heq : address = ref.address
  · subst heq
    simp [stream, modifyObject, cell_modify, hcell, hentity, Entity.stream]
  · simp only [stream, modifyObject, cell_modify, if_neg (Ne.symm heq), Function.update_of_ne heq]

end Heap

namespace Machine

/-- No number was drawn on the way from one machine to the other. -/
structure Still (before after : Machine) : Prop where
  tick : before.tick ≤ after.tick
  ids : before.heap.ids <+: after.heap.ids
  stream : after.heap.stream = before.heap.stream

namespace Still

variable {before after last : Machine}

theorem refl (machine : Machine) : machine.Still machine := ⟨le_refl _, List.prefix_refl _, rfl⟩

theorem trans (h : before.Still after) (h' : after.Still last) : before.Still last :=
  ⟨h.tick.trans h'.tick, h.ids.trans h'.ids, h'.stream.trans h.stream⟩

theorem of_heap (hheap : after.heap = before.heap) (htick : before.tick ≤ after.tick) :
    before.Still after :=
  ⟨htick, hheap ▸ List.prefix_refl _, hheap ▸ rfl⟩

theorem keeps_id (h : before.Still after) {address : Nat} {id : Id}
    (hid : before.heap.ids[address]? = some id) : after.heap.ids[address]? = some id := by
  obtain ⟨hlt, rfl⟩ := List.getElem?_eq_some_iff.mp hid
  exact List.prefix_iff_getElem?.mp h.ids address hlt

end Still

/-- No number is drawn in the run, however it ends. -/
def Calm {α : Type} (run : Run α) (machine : Machine) : Prop :=
  Yields run machine (fun _ after => machine.Still after) fun _ after => machine.Still after

variable {α β γ : Type} {machine after : Machine} {run : Run α}

theorem calm_pure (answer : α) : Calm (pure answer : Run α) machine := .refl machine

theorem calm_fail (error : RuntimeError) : Calm (fail error : Run α) machine := .refl machine

theorem calm_exhausted : Calm (exhausted : Run α) machine := .refl machine

theorem Calm.bind {next : α → Run β} (h : Calm run machine)
    (hnext : ∀ answer after, run machine = .ok answer after → Calm (next answer) after) :
    Calm (run >>= next) machine :=
  yields_bind.mpr (h.result.imp
    (fun answer after ⟨hstill, hanswer⟩ => (hnext answer after hanswer).imp
      (fun _ _ => hstill.trans) fun _ _ => hstill.trans)
    fun _ _ herror => herror.1)

theorem Calm.foldlM {step : β → γ → Run β}
    (h : ∀ current item machine, Calm (step current item) machine) (items : List γ) (start : β) :
    Calm (items.foldlM step start) machine :=
  Yields.foldlM (motive := fun _ after => machine.Still after) (.refl machine)
    fun item _ current middle hfirst => (h current item middle).imp
      (fun _ _ => hfirst.trans) fun _ _ => hfirst.trans

theorem Calm.mapM {action : γ → Run β} (h : ∀ item machine, Calm (action item) machine)
    (items : List γ) : Calm (items.mapM action) machine :=
  Yields.mapM (motive := machine.Still) (.refl machine) fun item _ middle hfirst =>
    (h item middle).imp (fun _ _ => hfirst.trans) fun _ _ => hfirst.trans

theorem Calm.forM {action : γ → Run PUnit} (h : ∀ item machine, Calm (action item) machine)
    (items : List γ) : Calm (items.forM action) machine :=
  Yields.forM (motive := fun _ => machine.Still) (.refl machine) fun item _ middle hfirst =>
    (h item middle).imp (fun _ _ => hfirst.trans) fun _ _ => hfirst.trans

/-! Entities are made with streams of their own. -/

theorem still_alloc {entity : Entity} (h : entity.stream = {}) (id : Id) :
    machine.Still { machine with heap := (machine.heap.alloc id entity).2 } :=
  ⟨le_refl _, Heap.ids_alloc ▸ List.prefix_append _ _, Heap.stream_alloc h⟩

theorem calm_alloc {entity : Entity} (h : entity.stream = {}) (id : Id) :
    Calm (alloc id entity) machine :=
  still_alloc h id

theorem calm_create {entity : Entity} (h : entity.stream = {}) : Calm (create entity) machine :=
  yields_create.mpr ⟨le_refl _, Heap.ids_alloc ▸ List.prefix_append _ _, Heap.stream_alloc h⟩

theorem calm_fresh {entity : Entity} (h : entity.stream = {}) (make : Ref → Value) :
    Calm (create entity >>= fun ref => pure (make ref)) machine :=
  (calm_create h).bind fun ref _ _ => calm_pure (make ref)

theorem calm_newArray (items : Array Value) : Calm (newArray items) machine :=
  calm_fresh rfl Value.array

theorem calm_newMap : Calm newMap machine := calm_fresh rfl Value.map

theorem calm_newSet : Calm newSet machine := calm_fresh rfl Value.set

theorem calm_newSuggestion (steps : List Step) : Calm (newSuggestion steps) machine :=
  .of_heap rfl (le_refl _)

mutual

theorem calm_defaultValue (constructed : Bool) :
    ∀ (ty : Ty) (machine : Machine), Calm (defaultValue constructed ty) machine
  | .num, _ | .text, _ | .bool, _ | .void, _ | .null, _ | .object _, _ | .method .., _ =>
    calm_pure _
  | .suggestion, _ => calm_newSuggestion []
  | .tuple elements, machine =>
    (calm_defaultValues constructed elements machine).bind fun _ _ _ => calm_pure _
  | .array _, _ => by
    cases constructed
    · exact calm_pure Value.null
    · exact calm_newArray #[]
  | .map _ _, _ => by
    cases constructed
    · exact calm_pure Value.null
    · exact calm_newMap
  | .set _, _ => by
    cases constructed
    · exact calm_pure Value.null
    · exact calm_newSet

theorem calm_defaultValues (constructed : Bool) :
    ∀ (types : List Ty) (machine : Machine), Calm (defaultValues constructed types) machine
  | [], _ => calm_pure []
  | ty :: rest, machine => (calm_defaultValue constructed ty machine).bind fun _ after _ =>
    (calm_defaultValues constructed rest after).bind fun _ _ _ => calm_pure _

end

theorem calm_cloneValue (value : Value) : Calm (cloneValue value) machine := by
  refine yields_bind.mpr (yields_get.mpr ?_)
  split
  case h_5 => exact calm_pure value
  all_goals
    dsimp only
    split
    · exact calm_fresh rfl _
    · exact calm_pure _

/-! Changes of the heap leave random streams alone. -/

theorem calm_onHeap {change : Heap → Heap} (hids : (change machine.heap).ids = machine.heap.ids)
    (hstream : (change machine.heap).stream = machine.heap.stream) :
    Calm (onHeap change) machine :=
  ⟨le_refl _, hids ▸ List.prefix_refl _, hstream⟩

theorem calm_modifyObject {ref : Ref} {change : Object → Object}
    (h : ∀ object, (change object).random = object.random) :
    Calm (onHeap fun heap => heap.modifyObject ref change) machine :=
  calm_onHeap (Heap.ids_modifyObject ..) (Heap.stream_modifyObject h)

theorem calm_initializeField (ref : Ref) (key : FieldKey) (value : Value) :
    Calm (initializeField ref key value) machine :=
  calm_modifyObject fun object => by split <;> rfl

theorem calm_installManifest (ref : Ref) : Calm (installManifest ref) machine := by
  cases hobject : machine.heap.object? ref with
  | none => exact (yields_installManifest_none hobject).mpr (.refl machine)
  | some object =>
    exact (yields_installManifest hobject).mpr ⟨le_refl _,
      (Heap.ids_modifyObject ..).symm ▸ List.prefix_refl _, Heap.stream_modifyObject fun _ => rfl⟩

theorem calm_classRoutine? (cls : ClassId) (slot : MethodSlot) :
    Calm (classRoutine? cls slot) machine :=
  .of_heap rfl (le_refl _)

end Machine

/-! Rebuilds of entities. -/

namespace Restore

variable {machine : Machine} {shells : Shells}

theorem calm_findClass (name : String) : Calm (findClass name) machine := by
  refine yields_bind.mpr (yields_get.mpr ?_)
  split
  · exact calm_pure _
  · exact calm_fail _

theorem calm_parseId (text : String) : Calm (parseId text) machine := by
  unfold parseId
  split
  · exact calm_pure _
  · exact calm_fail _

theorem calm_addShell (id : String) (entity : Value) :
    Calm (addShell shells id entity) machine := by
  unfold addShell
  split
  · exact calm_fail _
  · exact calm_pure _

theorem calm_objectShell (id : String) (object : SnapObject) :
    Calm (objectShell id object) machine :=
  (calm_parseId id).bind fun fresh _ _ =>
    (Calm.mapM (fun name _ => calm_findClass name) object.classes).bind fun _ _ _ =>
      (calm_alloc rfl fresh).bind fun ref _ _ =>
        (calm_installManifest ref).bind fun _ _ _ => calm_pure ref

theorem calm_containerShells {α : Type} {empty : Entity} (hempty : empty.stream = {})
    (make : Ref → Value) (table : Ordered String α) (shells : Shells) :
    Calm (containerShells empty make table shells) machine :=
  Calm.foldlM (fun _ id _ => (calm_parseId id).bind fun fresh _ _ =>
    (calm_alloc hempty fresh).bind fun ref _ _ => calm_addShell id (make ref)) _ _

theorem calm_stock (snapshot : Snapshot) : Calm (stock snapshot) machine := by
  refine Calm.bind (Calm.foldlM (fun made entry machine => ?_) _ _) fun made _ _ => ?_
  · exact (calm_objectShell entry.1 entry.2).bind fun ref _ _ =>
      (calm_addShell entry.1 (.object ref)).bind fun _ _ _ => calm_pure _
  · exact (calm_containerShells rfl _ _ _).bind fun _ _ _ =>
      (calm_containerShells rfl _ _ _).bind fun _ _ _ =>
        (calm_containerShells rfl _ _ _).bind fun _ _ _ => calm_pure _

mutual

theorem calm_value : ∀ (content : SnapValue) (machine : Machine),
    Calm (value shells content) machine
  | .null, _ | .num _, _ | .bool _, _ | .text _, _ => calm_pure _
  | .ref id, _ => by
    unfold value
    split
    · exact calm_pure _
    · exact calm_fail _
  | .tuple items, machine => (calm_values items machine).bind fun _ _ _ => calm_pure _
  | .suggestion steps, machine => (calm_stepsOf steps machine).bind fun steps _ _ =>
    calm_newSuggestion steps

theorem calm_values : ∀ (contents : List SnapValue) (machine : Machine),
    Calm (values shells contents) machine
  | [], _ => calm_pure []
  | content :: rest, machine => (calm_value content machine).bind fun _ after _ =>
    (calm_values rest after).bind fun _ _ _ => calm_pure _

theorem calm_step : ∀ (content : SnapStep) (machine : Machine),
    Calm (step shells content) machine
  | .extend target cls, machine | .retract target cls, machine =>
    (calm_value target machine).bind fun _ _ _ => (calm_findClass cls).bind fun _ _ _ => calm_pure _
  | .call target caller origin _ args, machine =>
    (calm_value target machine).bind fun _ after _ =>
      (calm_value caller after).bind fun _ _ _ => (calm_findClass origin).bind fun _ after _ =>
        (calm_values args after).bind fun _ _ _ => calm_pure _

theorem calm_stepsOf : ∀ (contents : List SnapStep) (machine : Machine),
    Calm (stepsOf shells contents) machine
  | [], _ => calm_pure []
  | content :: rest, machine => (calm_step content machine).bind fun _ after _ =>
    (calm_stepsOf rest after).bind fun _ _ _ => calm_pure _

end

theorem calm_fillField (ref : Ref) (key : String) (content : SnapValue) :
    Calm (fillField shells ref key content) machine := by
  unfold fillField
  split
  case h_2 => exact calm_fail _
  case h_1 name fieldName _ =>
    refine (calm_findClass name).bind fun cls after _ => yields_bind.mpr (yields_get.mpr ?_)
    split
    case h_2 => exact calm_fail _
    case h_1 =>
      exact (calm_value content after).bind fun _ _ _ =>
        calm_modifyObject fun object => by split <;> rfl

theorem calm_fillArray (id : String) (items : List SnapValue) :
    Calm (fillArray shells id items) machine :=
  (calm_values items machine).bind fun items _ _ => by
    split
    · exact calm_onHeap (Heap.ids_modifyArray ..) (Heap.stream_modifyArray ..)
    · exact calm_pure _

theorem calm_fillMap (id : String) (entries : List (SnapValue × SnapValue)) :
    Calm (fillMap shells id entries) machine := by
  refine Calm.bind (Calm.mapM (fun entry machine => ?_) entries) fun entries _ _ => ?_
  · exact (calm_value entry.1 machine).bind fun _ after _ =>
      (calm_value entry.2 after).bind fun _ _ _ => calm_pure _
  · split
    · exact calm_onHeap (Heap.ids_modifyMap ..) (Heap.stream_modifyMap ..)
    · exact calm_pure _

theorem calm_fillSet (id : String) (items : List SnapValue) :
    Calm (fillSet shells id items) machine :=
  (calm_values items machine).bind fun items _ _ => by
    dsimp only
    split
    · exact calm_onHeap (Heap.ids_modifySet ..) (Heap.stream_modifySet ..)
    · exact calm_pure _

theorem calm_fill (objects : List (Ref × SnapObject)) (snapshot : Snapshot) :
    Calm (fill shells objects snapshot) machine := by
  unfold fill
  refine Calm.bind ?_ fun _ _ _ => Calm.bind ?_ fun _ _ _ => Calm.bind ?_ fun _ _ _ => ?_
  · exact Calm.forM (fun ⟨ref, object⟩ _ => Calm.forM
      (fun ⟨key, content⟩ _ => calm_fillField ref key content) _) _
  · exact Calm.forM (fun ⟨id, items⟩ _ => calm_fillArray id items) _
  · exact Calm.forM (fun ⟨id, entries⟩ _ => calm_fillMap id entries) _
  · exact Calm.forM (fun ⟨id, items⟩ _ => calm_fillSet id items) _

end Restore

/-! Imports. -/

namespace Workspace

theorem still_steady : Steady fun workspace next => workspace.machine.Still next.machine where
  refl workspace := .refl workspace.machine
  trans := .trans
  registries _ _ _ := .of_heap rfl (le_refl _)
  weave _ _ := ⟨le_refl _, Heap.ids_alloc ▸ List.prefix_append _ _, Heap.stream_alloc rfl⟩

theorem importModule_still (url : String) (workspace : Workspace) :
    Yields (importModule url) workspace (fun _ next => workspace.machine.Still next.machine)
      fun _ next => workspace.machine.Still next.machine :=
  Steady.bind_get (fun _ => still_steady.importBelow
    (fun _ url _ tree _ hload _ workspace _ => still_steady.build hload url tree workspace) _ _ _)
    workspace

end Workspace

end Attire
