import Attire.Proofs.Machine.Ordinary
import Attire.Proofs.Runs.Halting

namespace Attire

open Machine

/-! Programs without `while` end.  Runs of one depth end if the calls do that they make; calls are one
deeper, and the depth is limited. -/

mutual

/-- The statement has no `while` in it.  Expressions never have one. -/
def Instr.whileFree : Instr → Bool
  | .while _ _ => false
  | .branch _ yes no => Instr.allWhileFree yes && Instr.allWhileFree no
  | .forEach _ _ _ _ body => Instr.allWhileFree body
  | .eval _ | .store _ _ | .setField _ _ _ | .setIndex _ _ _ _ | .append _ _ | .remove _ _ | .break
  | .continue | .return _ | .extend _ _ | .retract _ _ | .enforce _ | .release _ => true

def Instr.allWhileFree : List Instr → Bool
  | [] => true
  | instr :: rest => instr.whileFree && Instr.allWhileFree rest

end

def Routine.whileFree (routine : Routine) : Bool := Instr.allWhileFree routine.body

/-- The routines of the table have no `while` in them. -/
def Table.whileFree {κ : Type} (routines : Table κ Routine) : Bool :=
  routines.values.all Routine.whileFree

def ClassDef.whileFree (cls : ClassDef) : Bool := cls.bodies.whileFree && cls.initializers.whileFree

def ClassRegistry.whileFree (classes : ClassRegistry) : Bool :=
  classes.classes.toList.all ClassDef.whileFree

def MethodTable.whileFree (table : MethodTable) : Bool := table.methods.whileFree

def TableCache.WhileFree (cache : TableCache) : Prop :=
  ∀ manifest table, cache.tables.get? manifest = some table → table.whileFree

/-- Objects answer with the routines of their method tables. -/
def Entity.whileFree : Entity → Bool
  | .object stored => stored.table.whileFree
  | .array _ | .map _ | .set _ => true

def Heap.whileFree (heap : Heap) : Bool := heap.cells.toList.all fun cell => cell.entity.whileFree

/-- No routine that a run can come upon has a `while` in it: none of the registry, and none of the
method tables made from it. -/
structure Machine.WhileFree (machine : Machine) : Prop where
  classes : machine.classes.whileFree
  tables : machine.tables.WhileFree
  heap : machine.heap.whileFree

namespace Table

variable {κ : Type} {routines lower upper : Table κ Routine} {key : κ} {routine : Routine}

theorem whileFree_iff : routines.whileFree ↔ ∀ entry ∈ routines.entries, entry.2.whileFree := by
  simp [whileFree, values]

theorem whileFree_overlay [DecidableEq κ] (hlower : lower.whileFree) (hupper : upper.whileFree) :
    (lower.overlay upper).whileFree := by
  refine whileFree_iff.mpr fun entry hmem => ?_
  rcases mem_overlay hmem with hmem | hmem
  · exact whileFree_iff.mp hupper entry hmem
  · exact whileFree_iff.mp hlower entry hmem

theorem whileFree_of_get? [DecidableEq κ] (h : routines.whileFree)
    (hget : routines.get? key = some routine) : routine.whileFree :=
  whileFree_iff.mp h _ (mem_of_get? hget)

end Table

namespace ClassRegistry

variable {classes : ClassRegistry} {cls : ClassId} {found : ClassDef}

theorem whileFree_of_get? (h : classes.whileFree) (hget : classes.get? cls = some found) :
    found.bodies.whileFree ∧ found.initializers.whileFree := by
  have hfound := List.all_eq_true.mp h found (Array.mem_def.mp (Array.mem_of_getElem? hget))
  simpa only [ClassDef.whileFree, Bool.and_eq_true] using hfound

theorem whileFree_of_pending {machine : Machine} {object : Object} {field : PendingField}
    {routine : Routine} (h : machine.classes.whileFree)
    (hpending : field ∈ machine.pendingFields object) (hroutine : field.initializer = some routine) :
    routine.whileFree := by
  obtain ⟨found, hfound, hfield⟩ := List.mem_flatMap.mp hpending
  obtain ⟨cls, -, hget⟩ := List.mem_filterMap.mp hfound
  obtain ⟨entry, -, rfl⟩ := List.mem_map.mp hfield
  exact Table.whileFree_of_get? (whileFree_of_get? h hget).2 hroutine

/-- Method tables hold what is installed. -/
theorem whileFree_methodsOf (h : classes.whileFree) (manifest : List ClassId) :
    (classes.methodsOf manifest).whileFree := by
  refine Table.whileFree_iff.mpr fun entry hmem => ?_
  obtain ⟨cls, found, hget, hbody⟩ := installed_of_mem_methodsOf hmem
  exact Table.whileFree_iff.mp (whileFree_of_get? h hget).1 _ hbody

end ClassRegistry

namespace TableCache

variable {classes : ClassRegistry} {cache : TableCache} {manifest : List ClassId}

theorem whileFree_layer (h : cache.WhileFree) (manifest : List ClassId)
    (build : Unit → Table MethodSlot Routine) (hbuild : (build ()).whileFree) :
    (cache.layer manifest build).1.whileFree ∧ (cache.layer manifest build).2.WhileFree := by
  unfold layer
  split
  case h_1 table htable => exact ⟨h manifest table htable, h⟩
  case h_2 =>
    refine ⟨hbuild, fun other table htable => ?_⟩
    dsimp only at htable
    rw [Table.get?_insert] at htable
    split at htable
    case isTrue =>
      cases htable
      exact hbuild
    case isFalse => exact h other table htable

theorem whileFree_added (hclasses : classes.whileFree) {table : MethodTable}
    (htable : table.whileFree) (cls : ClassId) :
    (match classes.get? cls with
      | some cls => table.methods.overlay cls.bodies
      | none => table.methods).whileFree := by
  split
  case h_1 found hget =>
    exact Table.whileFree_overlay htable (ClassRegistry.whileFree_of_get? hclasses hget).1
  case h_2 => exact htable

theorem whileFree_layers (hclasses : classes.whileFree) {below : List ClassId}
    {table : MethodTable} (h : cache.WhileFree) (htable : table.whileFree) :
    (layers classes below table cache manifest).1.whileFree ∧
      (layers classes below table cache manifest).2.WhileFree := by
  induction manifest generalizing below table cache with
  | nil => exact ⟨htable, h⟩
  | cons cls rest ih =>
    obtain ⟨hnext, hcache⟩ := whileFree_layer h (below ++ [cls]) (fun _ => _)
      (whileFree_added hclasses htable cls)
    exact ih hcache hnext

theorem whileFree_request (hclasses : classes.whileFree) (h : cache.WhileFree)
    (manifest : List ClassId) :
    (cache.request classes manifest).1.whileFree ∧
      (cache.request classes manifest).2.WhileFree := by
  obtain ⟨hbase, hcache⟩ := whileFree_layer h [] (fun _ => ∅) rfl
  exact whileFree_layers hclasses hcache hbase

end TableCache

namespace Heap

variable {heap : Heap} {ref : Ref}

theorem whileFree_iff : heap.whileFree ↔ ∀ cell ∈ heap.cells, cell.entity.whileFree := by
  simp only [whileFree, List.all_eq_true, Array.mem_toList_iff]

theorem whileFree_alloc (h : heap.whileFree) {entity : Entity} (hentity : entity.whileFree)
    (id : Id) : (heap.alloc id entity).2.whileFree := by
  refine whileFree_iff.mpr fun cell hmem => ?_
  rcases Array.mem_push.mp hmem with hmem | rfl
  · exact whileFree_iff.mp h cell hmem
  · exact hentity

theorem whileFree_of_object? {object : Object} (h : heap.whileFree)
    (hobject : heap.object? ref = some object) : object.table.whileFree := by
  obtain ⟨cell, hmem, hentity⟩ := mem_of_entity? (object?_eq_some.mp hobject)
  have hcell := whileFree_iff.mp h cell hmem
  rwa [hentity] at hcell

theorem whileFree_of_bound {target : Value} {slot : MethodSlot} {routine : Routine}
    (h : heap.whileFree) (hbound : boundRoutine? heap target slot = some routine) :
    routine.whileFree := by
  unfold boundRoutine? at hbound
  split at hbound
  case h_1 ref =>
    obtain ⟨object, hobject, hslot⟩ := Option.bind_eq_some_iff.mp hbound
    exact Table.whileFree_of_get? (whileFree_of_object? h hobject) hslot
  case h_2 => cases hbound

theorem whileFree_modify (h : heap.whileFree) {change : Entity → Entity}
    (hchange : ∀ entity, entity.whileFree → (change entity).whileFree) :
    (heap.modify ref change).whileFree := by
  refine whileFree_iff.mpr fun cell hmem => ?_
  rcases mem_modify hmem with hmem | ⟨entity, hentity, heq⟩
  · exact whileFree_iff.mp h cell hmem
  · obtain ⟨old, hold, rfl⟩ := mem_of_entity? hentity
    rw [heq]
    exact hchange _ (whileFree_iff.mp h old hold)

theorem whileFree_modifyObject (h : heap.whileFree) {change : Object → Object}
    (hchange : ∀ object, object.table.whileFree → (change object).table.whileFree) :
    (heap.modifyObject ref change).whileFree := by
  refine whileFree_modify h fun entity hentity => ?_
  cases entity with
  | object object => exact hchange object hentity
  | array | map | set => rfl

theorem whileFree_modifyArray (h : heap.whileFree) {change : Array Value → Array Value} :
    (heap.modifyArray ref change).whileFree :=
  whileFree_modify h fun entity hentity => by cases entity <;> exact hentity

theorem whileFree_modifyMap (h : heap.whileFree) {change : MapEntries → MapEntries} :
    (heap.modifyMap ref change).whileFree :=
  whileFree_modify h fun entity hentity => by cases entity <;> exact hentity

theorem whileFree_modifySet (h : heap.whileFree) {change : SetEntries → SetEntries} :
    (heap.modifySet ref change).whileFree :=
  whileFree_modify h fun entity hentity => by cases entity <;> exact hentity

theorem whileFree_writeField (h : heap.whileFree) (target : Value) (key : FieldKey)
    (value : Value) : (writeField target key value heap).whileFree := by
  unfold writeField
  split
  · refine whileFree_modifyObject h fun object hobject => ?_
    split <;> exact hobject
  · exact h

theorem whileFree_putElement (h : heap.whileFree) (container : Value) (kind : IndexKind)
    (index value : Value) : (heap.putElement container kind index value).whileFree := by
  unfold putElement
  split
  · exact whileFree_modifyArray h
  · exact whileFree_modifyMap h
  · exact h

theorem whileFree_addElement (h : heap.whileFree) (container value : Value) :
    (heap.addElement container value).whileFree := by
  unfold addElement
  split
  · exact whileFree_modifyArray h
  · exact whileFree_modifySet h
  · exact h

theorem whileFree_removeElement (h : heap.whileFree) (container : Value) (key : MapKey) :
    (heap.removeElement container key).whileFree := by
  unfold removeElement
  split
  · exact whileFree_modifyMap h
  · exact whileFree_modifySet h
  · exact h

end Heap

/-- What the runs of one depth keep. -/
structure Machine.LooplessAt (limit depth : Nat) (machine : Machine) : Prop where
  whileFree : machine.WhileFree
  callLimit : machine.callLimit = limit
  depth : machine.depth = depth

section

variable {limit depth : Nat} {machine : Machine} {entity : Entity}

theorem Machine.LooplessAt.withHeap (h : machine.LooplessAt limit depth) {heap : Heap}
    (hheap : heap.whileFree) : LooplessAt limit depth { machine with heap } :=
  ⟨⟨h.whileFree.classes, h.whileFree.tables, hheap⟩, h.callLimit, h.depth⟩

/-! Single operations. -/

theorem halts_create (h : machine.LooplessAt limit depth) (hentity : entity.whileFree) :
    Halts (fun _ => create entity) machine fun _ after => after.LooplessAt limit depth := by
  refine .const (yields_create.mpr ?_)
  exact ⟨⟨h.whileFree.classes, h.whileFree.tables, Heap.whileFree_alloc h.whileFree.heap hentity _⟩,
    h.callLimit, h.depth⟩

theorem ends_create (hentity : entity.whileFree) :
    Ends (LooplessAt limit depth) fun _ => create entity :=
  fun _ h => halts_create h hentity

theorem ends_newArray (items : Array Value) :
    Ends (LooplessAt limit depth) fun _ => newArray items :=
  .bind (ends_create rfl) fun _ => .pure

theorem ends_newMap : Ends (LooplessAt limit depth) fun _ => newMap :=
  .bind (ends_create rfl) fun _ => .pure

theorem ends_newSet : Ends (LooplessAt limit depth) fun _ => newSet :=
  .bind (ends_create rfl) fun _ => .pure

theorem ends_newSuggestion (steps : List Step) :
    Ends (LooplessAt limit depth) fun _ => newSuggestion steps :=
  fun _ h =>
    .const ⟨⟨h.whileFree.classes, h.whileFree.tables, h.whileFree.heap⟩, h.callLimit, h.depth⟩

theorem ends_onHeap {change : Heap → Heap}
    (hchange : ∀ heap, heap.whileFree → (change heap).whileFree) :
    Ends (LooplessAt limit depth) fun _ => onHeap change :=
  fun machine h => .const (h.withHeap (hchange machine.heap h.whileFree.heap))

theorem ends_initializeField (ref : Ref) (key : FieldKey) (value : Value) :
    Ends (LooplessAt limit depth) fun _ => initializeField ref key value := by
  refine ends_onHeap fun heap hheap => Heap.whileFree_modifyObject hheap fun object hobject => ?_
  split <;> exact hobject

theorem ends_drawRandom (ref : Ref) : Ends (LooplessAt limit depth) fun _ => drawRandom ref := by
  intro machine h
  refine .const ?_
  rw [drawRandom, yields_modifyGet]
  split
  · exact h.withHeap (Heap.whileFree_modifyObject h.whileFree.heap fun _ hobject => hobject)
  · exact h

theorem ends_cloneValue (value : Value) :
    Ends (LooplessAt limit depth) fun _ => cloneValue value := by
  unfold cloneValue
  refine .bind_get fun machine h => ?_
  dsimp only
  split
  case h_1 ref =>
    split
    case h_1 object hobject =>
      have htable := Heap.whileFree_of_object? h.whileFree.heap hobject
      exact .bind (ends_create htable) fun _ => .pure
    case h_2 => exact .pure
  case h_2 | h_3 | h_4 =>
    split
    · exact .bind (ends_create rfl) fun _ => .pure
    · exact .pure
  case h_5 => exact .pure

mutual

theorem ends_defaultValue (constructed : Bool) :
    ∀ ty : Ty, Ends (LooplessAt limit depth) fun _ => defaultValue constructed ty
  | .num | .text | .bool | .void | .null | .object _ | .method .. => .pure
  | .suggestion => ends_newSuggestion []
  | .tuple elements => (ends_defaultValues constructed elements).bind fun _ => .pure
  | .array _ => by
    cases constructed with
    | false => exact .pure
    | true => exact ends_newArray #[]
  | .map _ _ => by
    cases constructed with
    | false => exact .pure
    | true => exact ends_newMap
  | .set _ => by
    cases constructed with
    | false => exact .pure
    | true => exact ends_newSet

theorem ends_defaultValues (constructed : Bool) :
    ∀ types : List Ty, Ends (LooplessAt limit depth) fun _ => defaultValues constructed types
  | [] => .pure
  | ty :: rest => (ends_defaultValue constructed ty).bind fun _ =>
    (ends_defaultValues constructed rest).bind fun _ => .pure

end

/-- Answers with tables of routines without `while`. -/
theorem halts_methodTable (h : machine.LooplessAt limit depth) (manifest : List ClassId) :
    Halts (fun _ => methodTable manifest) machine fun table after =>
      table.whileFree ∧ after.LooplessAt limit depth := by
  obtain ⟨htable, htables⟩ :=
    TableCache.whileFree_request h.whileFree.classes h.whileFree.tables manifest
  exact .const ⟨htable, ⟨h.whileFree.classes, htables, h.whileFree.heap⟩, h.callLimit, h.depth⟩

theorem halts_classRoutine (h : machine.LooplessAt limit depth) (cls : ClassId)
    (slot : MethodSlot) :
    Halts (fun _ => classRoutine? cls slot) machine fun answer after =>
      (∀ routine, answer = some routine → routine.whileFree) ∧ after.LooplessAt limit depth := by
  unfold classRoutine?
  refine .bind_get ((halts_methodTable h _).bind fun table after htable => .const ?_)
  exact ⟨fun _ hroutine => Table.whileFree_of_get? htable.1 hroutine, htable.2⟩

theorem ends_installManifest (ref : Ref) :
    Ends (LooplessAt limit depth) fun _ => installManifest ref := by
  unfold installManifest
  refine .bind_get fun machine _ => ?_
  split
  case h_1 => exact .pure
  case h_2 object _ =>
    intro machine' h'
    refine (halts_methodTable h' _).bind fun table after htable => .const ?_
    exact htable.2.withHeap (Heap.whileFree_modifyObject htable.2.whileFree.heap fun _ _ => htable.1)

/-! Whole runs. -/

/-- The calls of one depth end. -/
def CallsEnd (limit depth : Nat) : Prop :=
  ∀ routine : Routine, routine.whileFree → ∀ this caller args,
    Ends (LooplessAt limit depth) fun steps => invoke steps routine this caller args

theorem ends_dispatch (hcalls : CallsEnd limit depth) (target : Value) (slot : MethodSlot)
    (caller : Value) (args : List Value) (ret : Ty) :
    Ends (LooplessAt limit depth) fun steps => dispatch steps target slot caller args ret := by
  refine .succ ?_
  unfold dispatch
  refine .bind_get fun machine h => ?_
  split
  case h_1 routine hbound =>
    exact hcalls routine (Heap.whileFree_of_bound h.whileFree.heap hbound) target caller args
  case h_2 => exact ends_defaultValue false ret

theorem ends_initializeMissing (hcalls : CallsEnd limit depth) (ref : Ref) :
    Ends (LooplessAt limit depth) fun steps => initializeMissing steps ref := by
  refine .succ ?_
  unfold initializeMissing
  refine .bind_get fun machine h => .forM fun field hmem => ?_
  split
  case h_1 routine hroutine =>
    obtain ⟨object, -, hpending⟩ : ∃ object, machine.heap.object? ref = some object ∧
        field ∈ machine.pendingFields object := by
      cases hobject : machine.heap.object? ref with
      | none => simp [hobject] at hmem
      | some object => exact ⟨object, rfl, by simpa [hobject] using hmem⟩
    have hfree := ClassRegistry.whileFree_of_pending h.whileFree.classes hpending hroutine
    exact (hcalls routine hfree (.object ref) .null []).bind fun value =>
      ends_initializeField ref field.key value
  case h_2 =>
    exact (ends_defaultValue true field.ty).bind fun value =>
      ends_initializeField ref field.key value

theorem ends_remanifest (hcalls : CallsEnd limit depth) (ref : Ref) :
    Ends (LooplessAt limit depth) fun steps => remanifest steps ref := by
  refine .succ ?_
  unfold remanifest
  exact (ends_installManifest ref).bind fun _ => ends_initializeMissing hcalls ref

theorem ends_instantiate (hcalls : CallsEnd limit depth) (cls : ClassId) :
    Ends (LooplessAt limit depth) fun steps => instantiate steps cls := by
  refine .succ ?_
  unfold instantiate
  refine .bind_get fun machine _ => ?_
  split
  · exact .bind (ends_create rfl) fun ref => (ends_remanifest hcalls ref).bind fun _ => .pure
  · exact .fail

theorem ends_extend (hcalls : CallsEnd limit depth) (ref : Ref) (cls : ClassId) :
    Ends (LooplessAt limit depth) fun steps => extend steps ref cls := by
  refine .succ ?_
  unfold extend
  refine .bind_get fun machine _ => ?_
  split
  case isFalse => exact .fail
  case isTrue =>
    split
    case h_1 => exact .pure
    case h_2 object _ =>
      split
      · exact .pure
      · refine .bind (ends_onHeap fun heap hheap => ?_) fun _ => ?_
        · exact Heap.whileFree_modifyObject hheap fun _ hobject => hobject
        · split
          · exact .pure
          · exact ends_remanifest hcalls ref

theorem ends_retract (hcalls : CallsEnd limit depth) (ref : Ref) (cls : ClassId) :
    Ends (LooplessAt limit depth) fun steps => retract steps ref cls := by
  refine .succ ?_
  unfold retract
  refine .bind (ends_onHeap fun heap hheap => ?_) fun _ => ends_remanifest hcalls ref
  exact Heap.whileFree_modifyObject hheap fun _ hobject => hobject

theorem ends_enforce (hcalls : CallsEnd limit depth) (batch : List Step) :
    Ends (LooplessAt limit depth) fun steps => enforce steps batch := by
  refine .succ ?_
  unfold enforce
  refine .bind (.forM fun step _ => ?_) fun _ => .bind (.forM fun step _ => ?_) fun _ =>
    .forM fun step _ => ?_
  · split
    · exact ends_extend hcalls _ _
    · exact .pure
  · split
    · refine .bind_get fun machine h => ?_
      split
      case h_1 routine hbound =>
        have hfree := Heap.whileFree_of_bound h.whileFree.heap hbound
        exact (hcalls routine hfree _ _ _).bind fun _ => .pure
      case h_2 => exact .pure
    · exact .pure
  · split
    · exact ends_retract hcalls _ _
    · exact .pure

mutual

theorem ends_eval (hcalls : CallsEnd limit depth) (code : Code) :
    EndsIn (LooplessAt limit depth) fun steps => eval steps code := by
  refine .succ ?_
  cases code <;> unfold eval
  case num | text | bool | null | const => exact .pure
  case «default» ty constructed => exact .lift (ends_defaultValue constructed ty)
  case «local» | this | caller => exact .bind_get fun _ => .pure
  case tee slot operand =>
    exact (ends_eval hcalls operand).bind fun value => (EndsIn.setSlot slot value).bind fun _ => .pure
  case getField object key ty =>
    refine (ends_eval hcalls object).bind fun target => .bind_currentHeap fun heap => ?_
    split
    · exact .pure
    · exact .lift (ends_defaultValue false ty)
  case index object kind index ty =>
    refine (ends_eval hcalls object).bind_two (ends_eval hcalls index) fun container position =>
      .bind_currentHeap fun heap => ?_
    split
    · exact .pure
    · exact .lift (ends_defaultValue false ty)
  case tupleGet tuple _ =>
    refine (ends_eval hcalls tuple).bind fun target => ?_
    split <;> exact .pure
  case call object slot args ret =>
    exact (ends_eval hcalls object).bind fun target => (ends_evalAll hcalls args).bind fun values =>
      .bind_get fun frame => .lift (ends_dispatch hcalls target slot frame.this values ret)
  case superCall parent slot args =>
    refine (ends_evalAll hcalls args).bind fun values =>
      .bind_lift (fun _ h => halts_classRoutine h parent slot) fun answer hanswer => ?_
    split
    case h_1 routine =>
      exact .bind_get fun frame => .bind_get fun frame' =>
        .lift (hcalls routine (hanswer routine rfl) frame.this frame'.caller values)
    case h_2 => exact .bind_getMachine fun _ => .lift .fail
  case new cls => exact (EndsIn.lift (ends_instantiate hcalls cls)).bind fun _ => .pure
  case newArray => exact .lift (ends_newArray #[])
  case newMap => exact .lift ends_newMap
  case newSet => exact .lift ends_newSet
  case array elements =>
    exact (ends_evalAll hcalls elements).bind fun items => .lift (ends_newArray items.toArray)
  case tuple elements => exact (ends_evalAll hcalls elements).bind fun _ => .pure
  case arith left right | concat left right | compare left right | equal left right =>
    exact (ends_eval hcalls left).bind_two (ends_eval hcalls right) fun _ _ => .pure
  case logic conjunction left right =>
    refine (ends_eval hcalls left).bind fun value => ?_
    split
    · exact (ends_eval hcalls right).bind fun _ => .pure
    · exact .pure
  case not operand | neg operand => exact (ends_eval hcalls operand).bind fun _ => .pure
  case merge left right =>
    exact (ends_eval hcalls left).bind_two (ends_eval hcalls right) fun a b =>
      .lift (ends_newSuggestion (mergeSteps a b))
  case cast operand _ | len operand | is operand _ =>
    exact (ends_eval hcalls operand).bind fun _ => .bind_currentHeap fun _ => .pure
  case clone operand =>
    exact (ends_eval hcalls operand).bind fun value => .lift (ends_cloneValue value)
  case has collection key =>
    exact (ends_eval hcalls collection).bind_two (ends_eval hcalls key) fun _ _ =>
      .bind_currentHeap fun _ => .pure
  case random =>
    refine .bind_get fun frame => ?_
    split
    · exact (EndsIn.lift (ends_drawRandom _)).bind fun _ => .pure
    · exact .pure
  case suggest parts =>
    exact (ends_evalSteps hcalls parts).bind fun steps => .lift (ends_newSuggestion steps)

theorem ends_evalAll (hcalls : CallsEnd limit depth) (codes : List Code) :
    EndsIn (LooplessAt limit depth) fun steps => codes.mapM (eval steps) := by
  cases codes with
  | nil => exact .mapM nofun
  | cons code rest =>
    simp only [List.mapM_cons]
    exact (ends_eval hcalls code).bind fun _ => (ends_evalAll hcalls rest).bind fun _ => .pure

theorem ends_evalStep (hcalls : CallsEnd limit depth) (code : StepCode) :
    EndsIn (LooplessAt limit depth) fun steps => evalStep steps code := by
  refine .succ ?_
  cases code <;> unfold evalStep
  case extend target _ | retract target _ => exact (ends_eval hcalls target).bind fun _ => .pure
  case call target _ args =>
    exact (ends_eval hcalls target).bind fun _ => .bind_get fun _ =>
      (ends_evalAll hcalls args).bind fun _ => .pure

theorem ends_evalSteps (hcalls : CallsEnd limit depth) (codes : List StepCode) :
    EndsIn (LooplessAt limit depth) fun steps => codes.mapM (evalStep steps) := by
  cases codes with
  | nil => exact .mapM nofun
  | cons code rest =>
    simp only [List.mapM_cons]
    exact (ends_evalStep hcalls code).bind fun _ => (ends_evalSteps hcalls rest).bind fun _ => .pure

end

/-- What a loop makes of the end of a round. -/
theorem ends_round (first : Nat) (second : Option Nat) {body : List Instr}
    {rest : List (Value × Option Value)}
    (hbody : EndsIn (LooplessAt limit depth) fun steps => execBlock steps body)
    (hrest : EndsIn (LooplessAt limit depth) fun steps => repeatFor steps first second body rest) :
    EndsIn (LooplessAt limit depth) (fun steps => do
      match ← execBlock steps body with
      | .break => return .next
      | .return value => return .return value
      | .next | .continue => repeatFor steps first second body rest) := by
  refine hbody.bind fun flow => ?_
  cases flow with
  | «break» | «return» => exact .pure
  | next | «continue» => exact hrest

/-- The rounds are settled before the first one; a body that makes its collection grow adds none. -/
theorem ends_repeatFor {first : Nat} {second : Option Nat} {body : List Instr}
    (hbody : EndsIn (LooplessAt limit depth) fun steps => execBlock steps body) :
    ∀ rounds, EndsIn (LooplessAt limit depth) fun steps => repeatFor steps first second body rounds
  | [] => by
    refine .succ ?_
    unfold repeatFor
    exact .pure
  | (a, b) :: rest => by
    have hround := ends_round first second hbody (ends_repeatFor hbody rest)
    refine .succ ?_
    unfold repeatFor
    refine (EndsIn.setSlot first a).bind fun _ => ?_
    split
    · exact (EndsIn.setSlot _ _).bind fun _ => hround
    · exact hround

mutual

theorem ends_exec (hcalls : CallsEnd limit depth) {instr : Instr} (h : instr.whileFree) :
    EndsIn (LooplessAt limit depth) fun steps => exec steps instr := by
  refine .succ ?_
  cases instr <;> unfold exec
  case eval code => exact (ends_eval hcalls code).bind fun _ => .pure
  case store slot code =>
    exact (ends_eval hcalls code).bind fun value => (EndsIn.setSlot slot value).bind fun _ => .pure
  case setField object key code =>
    exact (ends_eval hcalls object).bind_two (ends_eval hcalls code) fun target value =>
      (EndsIn.lift (ends_onHeap fun _ hheap =>
        Heap.whileFree_writeField hheap target key value)).bind fun _ => .pure
  case setIndex target kind index code =>
    exact (ends_eval hcalls target).bind_two (ends_eval hcalls index) fun container position =>
      (ends_eval hcalls code).bind fun value =>
        (EndsIn.lift (ends_onHeap fun _ hheap =>
          Heap.whileFree_putElement hheap container kind position value)).bind fun _ => .pure
  case append target code =>
    exact (ends_eval hcalls target).bind_two (ends_eval hcalls code) fun container value =>
      (EndsIn.lift (ends_onHeap fun _ hheap =>
        Heap.whileFree_addElement hheap container value)).bind fun _ => .pure
  case remove target code =>
    exact (ends_eval hcalls target).bind_two (ends_eval hcalls code) fun container value =>
      (EndsIn.lift (ends_onHeap fun _ hheap =>
        Heap.whileFree_removeElement hheap container (MapKey.ofValue value))).bind fun _ => .pure
  case branch cond yes no =>
    obtain ⟨hyes, hno⟩ := Bool.and_eq_true_iff.mp h
    refine (ends_eval hcalls cond).bind fun answer => ?_
    split
    · exact ends_execBlock hcalls hyes
    · exact ends_execBlock hcalls hno
  case «while» => cases h
  case forEach source kind first second body =>
    exact (ends_eval hcalls source).bind fun collection => .bind_currentHeap fun heap =>
      ends_repeatFor (ends_execBlock hcalls h) (heap.rounds collection kind second.isSome)
  case «break» | «continue» => exact .pure
  case «return» code => exact (ends_eval hcalls code).bind fun _ => .pure
  case extend target cls =>
    refine (ends_eval hcalls target).bind fun value => ?_
    split
    · exact (EndsIn.lift (ends_extend hcalls _ cls)).bind fun _ => .pure
    · exact .pure
  case retract target cls =>
    refine (ends_eval hcalls target).bind fun value => ?_
    split
    · exact (EndsIn.lift (ends_retract hcalls _ cls)).bind fun _ => .pure
    · exact .pure
  case enforce code =>
    refine (ends_eval hcalls code).bind fun value => ?_
    split
    · exact (EndsIn.lift (ends_enforce hcalls _)).bind fun _ => .pure
    · exact .pure
  case release slots =>
    exact (EndsIn.forM fun slot _ => EndsIn.setSlot slot .null).bind fun _ => .pure

theorem ends_execBlock (hcalls : CallsEnd limit depth) {body : List Instr}
    (h : Instr.allWhileFree body) :
    EndsIn (LooplessAt limit depth) fun steps => execBlock steps body := by
  refine .succ ?_
  cases body <;> unfold execBlock
  case nil => exact .pure
  case cons instr rest =>
    obtain ⟨hinstr, hrest⟩ := Bool.and_eq_true_iff.mp h
    refine (ends_exec hcalls hinstr).bind fun flow => ?_
    cases flow with
    | next => exact ends_execBlock hcalls hrest
    | _ => exact .pure

end

theorem Machine.LooplessAt.enter (h : machine.LooplessAt limit depth) :
    LooplessAt limit (depth + 1) { machine with depth := machine.depth + 1 } :=
  ⟨⟨h.whileFree.classes, h.whileFree.tables, h.whileFree.heap⟩, h.callLimit, congrArg (· + 1) h.depth⟩

theorem Machine.LooplessAt.leave (h : machine.LooplessAt limit (depth + 1)) :
    LooplessAt limit depth { machine with depth := machine.depth - 1 } :=
  ⟨⟨h.whileFree.classes, h.whileFree.tables, h.whileFree.heap⟩, h.callLimit, congrArg (· - 1) h.depth⟩

/-- A call ends if the calls end that are made one level below, or if there is no level below. -/
theorem callsEnd_of_below (hbelow : depth < limit → CallsEnd limit (depth + 1)) :
    CallsEnd limit depth := by
  intro routine hroutine this caller args
  refine .succ ?_
  unfold invoke
  refine .bind_get fun machine h => ?_
  split
  · exact .fail
  · refine .bind (fun machine' h' => ?_) fun flow => ?_
    · have hlt : depth < limit := by
        have hcallLimit := h.callLimit
        have hdepth := h.depth
        omega
      have hblock := ends_execBlock (hbelow hlt) hroutine (Frame.ofRoutine routine this caller args)
      exact Halts.nested (Halts.map ((hblock _ h'.enter).imp fun _ _ hafter => hafter.leave))
    · split
      · exact .pure
      · exact ends_defaultValue false routine.ret

/-- Calls end at every depth, by induction on how many levels are left. -/
theorem callsEnd : ∀ depth, CallsEnd limit depth := by
  suffices h : ∀ room depth, limit - depth ≤ room → CallsEnd limit depth from
    fun depth => h (limit - depth) depth (Nat.le_refl _)
  intro room
  induction room with
  | zero => exact fun depth hroom => callsEnd_of_below fun hlt => absurd hlt (by omega)
  | succ room ih => exact fun depth hroom => callsEnd_of_below fun _ => ih (depth + 1) (by omega)

end

end Attire
