import Attire.Proofs.Host.Effects
import Attire.Proofs.Runs.Activities

namespace Attire

open Machine Workspace

/-! Objects store the fields of all that they are, once their initializers have run. -/

/-- The object stores exactly the fields of the classes of its manifest. -/
def Object.Complete (classes : ClassRegistry) (object : Object) : Prop :=
  ∀ key, key ∈ object.fields.keys ↔ key.owner ∈ object.manifest ∧ classes.HasField key

def Machine.Completes (machine : Machine) (ref : Ref) : Prop :=
  ∃ object, machine.heap.object? ref = some object ∧ object.Complete machine.classes

theorem Machine.Undisturbed.object {before after : Machine} (h : before.Undisturbed after)
    {ref : Ref} {object : Object} (hobject : before.heap.object? ref = some object) :
    ∃ random, after.heap.object? ref = some { object with random } := by
  obtain ⟨cell, hcell, hentity⟩ := Heap.entity?_eq_some.mp (Heap.object?_eq_some.mp hobject)
  obtain ⟨cell', hcell', -, hredrawn⟩ := h.cells hcell
  rw [hentity] at hredrawn
  obtain ⟨random, hrandom⟩ := hredrawn
  exact ⟨random, Heap.object?_eq_some.mpr (Heap.entity?_eq_some.mpr ⟨cell', hcell', hrandom⟩)⟩

/-- What the object lacks is pending. -/
theorem Machine.mem_keys_or_pending {machine : Machine} (hcomposed : machine.classes.Composed)
    {object : Object} {key : FieldKey} (howner : key.owner ∈ object.manifest)
    (hfield : machine.classes.HasField key) :
    key ∈ object.fields.keys ∨ ∃ field ∈ machine.pendingFields object, field.key = key := by
  by_cases hstored : key ∈ object.fields.keys
  · exact .inl hstored
  · obtain ⟨found, hfound, hindex⟩ := hfield
    have hown : (key, found.ownFields[key.index]) ∈ found.ownFieldKeys := by
      refine List.mem_mapIdx.mpr ⟨key.index, hindex, ?_⟩
      rw [hcomposed.id hfound]
    have hlacks : object.fields.contains key = false := by
      rw [← Bool.not_eq_true, Table.contains_iff]
      exact hstored
    have hpending : (⟨key, _, _⟩ : PendingField) ∈ machine.pendingFields object :=
      List.mem_flatMap.mpr ⟨found, List.mem_filterMap.mpr ⟨key.owner, howner, hfound⟩,
        List.mem_map.mpr ⟨_, List.mem_filter.mpr ⟨hown, by simp [hlacks]⟩, rfl⟩⟩
    exact .inr ⟨_, hpending, rfl⟩

namespace Workspace

variable {workspace : Workspace} {ref : Ref} {object : Object}

/-- A value that is made without changing anything that there was. -/
theorem Sound.plain_value (h : workspace.Sound) {action : Run Value}
    (hsafe : h.plain.regime.Safe workspace.stage action workspace.machine fun next _ answer =>
      h.plain.discipline.Admits next answer) :
    Yields action workspace.machine
      (fun value after => workspace.Replaces after ∧ workspace.machine.Undisturbed after ∧
        after.Knows value)
      fun halt after => ∀ error, halt = .error error →
        workspace.Replaces after ∧ workspace.machine.Undisturbed after := by
  refine Yields.imp hsafe ?_ ?_
  · rintro value after ⟨next, hle, hfits, hvalue⟩
    refine ⟨replaces_of_fits rfl rfl hle hfits, h.undisturbed hle hfits, ?_⟩
    rw [Machine.Knows, hfits.sound.layout, hfits.sound.registry]
    exact Footing.admits_iff.mp hvalue
  · intro halt after herror error heq
    obtain ⟨-, next, hle, hfits⟩ := herror error heq
    exact ⟨replaces_of_fits rfl rfl hle hfits, h.undisturbed hle hfits⟩

/-- First the value of a pending field is made, without changing anything that there was, and then
it is stored. -/
theorem Sound.yields_initializePending (h : workspace.Sound) {field : PendingField} {steps : Nat}
    {ok : PUnit → Machine → Prop} {err : Halt → Machine → Prop}
    (href : workspace.machine.Knows (.object ref))
    (hroutine : ∀ routine, field.initializer = some routine →
      workspace.machine.classes.Initializes routine)
    (hstore : ∀ value after, workspace.Replaces after → workspace.machine.Undisturbed after →
      after.Knows value → Yields (initializeField ref field.key value) after ok err)
    (herr : ∀ halt after, (∀ error, halt = .error error →
      workspace.Replaces after ∧ workspace.machine.Undisturbed after) → err halt after) :
    Yields (initializePending steps ref field) workspace.machine ok err := by
  have hplain : ∀ {value : Run Value}, h.plain.regime.Safe workspace.stage value workspace.machine
      (fun next _ answer => h.plain.discipline.Admits next answer) →
      Yields (value >>= initializeField ref field.key) workspace.machine ok err := fun hsafe =>
    yields_bind.mpr ((h.plain_value hsafe).imp
      (fun value after ⟨hreplaces, hundisturbed, hvalue⟩ =>
        hstore value after hreplaces hundisturbed hvalue) herr)
  unfold initializePending
  split
  case h_1 routine hinitializer =>
    exact hplain ((h.plain.discipline.keeps steps).invoke h.plain_fits
      (h.plain.backed.initializer (hroutine routine hinitializer)) href trivial
      (List.forall_mem_nil _))
  case h_2 => exact hplain (h.plain.discipline.safe_defaultValue true field.ty h.plain_fits)

theorem Sound.stores (h : workspace.Sound) {key : FieldKey} {value : Value}
    (hfield : workspace.machine.classes.HasField key) (hvalue : workspace.machine.Knows value) :
    Yields (initializeField ref key value) workspace.machine
      (fun _ after => workspace.Replaces after) fun _ _ => True :=
  (h.keeps (Footing.safe_initialize h.full_fits (Nat.zero_le _)
    (h.full.backed.store.mpr hfield) (Footing.admits_iff.mpr hvalue)).lenient).imp
    (fun _ _ h => h) fun _ _ _ => trivial

theorem Replaces.knows {machine : Machine} (h : workspace.Replaces machine) {value : Value}
    (hvalue : workspace.machine.Knows value) : machine.Knows value := by
  rw [Machine.Knows, h.sound.registry]
  exact hvalue.mono h.outline

/-- The object lacks no more than the pending fields. -/
structure Lacks (workspace : Workspace) (ref : Ref) (pending : List PendingField)
    (machine : Machine) : Prop where
  sound : Sound { workspace with machine }
  knows : machine.Knows (.object ref)
  fields : ∀ field ∈ pending, machine.classes.HasField field.key ∧
    ∀ routine, field.initializer = some routine → machine.classes.Initializes routine
  covers : ∃ object, machine.heap.object? ref = some object ∧
    ∀ key, key.owner ∈ object.manifest → machine.classes.HasField key →
      key ∈ object.fields.keys ∨ ∃ field ∈ pending, field.key = key

theorem Lacks.completes {machine : Machine} (h : workspace.Lacks ref [] machine) :
    machine.Completes ref := by
  obtain ⟨object, hobject, hcovers⟩ := h.covers
  have hcoherent := (h.sound.running.object_sound hobject).object rfl
  refine ⟨object, hobject, fun key => ⟨hcoherent.fields key, fun ⟨howner, hfield⟩ => ?_⟩⟩
  rcases hcovers key howner hfield with hmem | ⟨field, hmem, -⟩
  · exact hmem
  · cases hmem

theorem Lacks.initializeNext {field : PendingField} {rest : List PendingField} {machine : Machine}
    (h : workspace.Lacks ref (field :: rest) machine) (steps : Nat) :
    Yields (initializePending steps ref field) machine
      (fun _ next => workspace.Lacks ref rest next) fun _ _ => True := by
  have hsound := h.sound
  obtain ⟨object, hobject, hcovers⟩ := h.covers
  obtain ⟨hfield, hroutine⟩ := h.fields field (by simp)
  refine hsound.yields_initializePending h.knows hroutine ?_ fun _ _ _ => trivial
  intro value after hreplaces hundisturbed hvalue
  have hafter : Sound { workspace with machine := after } := hreplaces.sound_workspace hsound
  obtain ⟨random, hobject'⟩ := hundisturbed.object hobject
  have hclasses : after.classes = machine.classes := hundisturbed.classes
  have hstored : Replaces { workspace with machine := after } { after with
      heap := after.heap.modifyObject ref fun object =>
        if object.embodies field.key.owner then
          { object with fields := object.fields.insertIfNew field.key value }
        else object } := hafter.stores (hclasses.symm ▸ hfield) hvalue
  refine ⟨hstored.sound_workspace hafter, hstored.knows (hreplaces.knows h.knows),
    fun other hmem => hclasses ▸ h.fields other (List.mem_cons_of_mem _ hmem), ?_⟩
  refine ⟨_, Heap.object?_modifyObject hobject', fun key howner hkey => ?_⟩
  have hcoherent := (hsound.running.object_sound hobject).object rfl
  by_cases hembodies : object.embodies field.key.owner
  · rw [if_pos (by exact hembodies)] at howner ⊢
    rcases hcovers key howner (hclasses ▸ hkey) with hmem | ⟨other, hmem, rfl⟩
    · exact .inl (Table.mem_keys_insertIfNew.mpr (.inr hmem))
    · rcases List.mem_cons.mp hmem with rfl | hmem
      · exact .inl (Table.mem_keys_insertIfNew.mpr (.inl rfl))
      · exact .inr ⟨other, hmem, rfl⟩
  · rw [if_neg (by exact hembodies)] at howner ⊢
    rcases hcovers key howner (hclasses ▸ hkey) with hmem | ⟨other, hmem, rfl⟩
    · exact .inl hmem
    · rcases List.mem_cons.mp hmem with rfl | hmem
      · exact absurd (decide_eq_true ((hcoherent.types _).mpr howner)) hembodies
      · exact .inr ⟨other, hmem, rfl⟩

theorem Sound.initializes (h : workspace.Sound) (href : workspace.machine.Knows (.object ref))
    (steps : Nat) :
    Yields (initializeMissing steps ref) workspace.machine
      (fun _ after => after.Completes ref) fun _ _ => True := by
  cases steps with
  | zero =>
    rw [initializeMissing]
    trivial
  | succ steps =>
    obtain ⟨object, hobject⟩ := Heap.object?_of_names href
    rw [initializeMissing]
    refine yields_bind.mpr (yields_get.mpr ?_)
    rw [hobject]
    refine (Yields.forM (motive := workspace.Lacks ref) ?_
      fun field rest machine hlacks => hlacks.initializeNext steps).imp
      (fun _ _ hlacks => hlacks.completes) fun _ _ h => h
    exact ⟨h, href, fun field hmem => Footing.mem_pendingFields h.full_fits hmem, object, hobject,
      fun key howner hkey => Machine.mem_keys_or_pending h.composed howner hkey⟩

/-- An object is complete after its initializers have run, whatever was done to it before. -/
theorem Sound.remanifests (h : workspace.Sound) {prior : Run Ref}
    (hprior : h.full.regime.Safe workspace.stage
      (prior >>= fun ref => installManifest ref >>= fun _ => pure ref) workspace.machine
      fun next _ ref => next.outline.Names (.object ref)) (steps : Nat) :
    Yields (prior >>= fun ref => remanifest steps ref >>= fun _ => pure ref) workspace.machine
      (fun ref after => after.Completes ref) fun _ _ => True := by
  cases steps with
  | zero =>
    simp only [remanifest]
    refine yields_bind.mpr ?_
    unfold Yields
    split <;> trivial
  | succ steps =>
    rw [Discipline.Keeps.bind_remanifest]
    refine yields_bind.mpr (Yields.imp hprior ?_ fun _ _ _ => trivial)
    rintro ref machine ⟨next, hle, hfits, hnames⟩
    have hsound := (h.replaces hle hfits).sound_workspace h
    refine yields_bind.mpr ((hsound.initializes ?_ steps).imp (fun _ _ h => h) fun _ _ h => h)
    show machine.Knows (.object ref)
    rw [Machine.Knows, hfits.sound.layout]
    exact hnames

theorem Sound.reshapes (h : workspace.Sound) {change : Run PUnit}
    (href : workspace.machine.Knows (.object ref))
    (hchange : h.full.regime.Safe workspace.stage (change >>= fun _ => installManifest ref)
      workspace.machine fun _ _ _ => True) (steps : Nat) :
    Yields (change >>= fun _ => remanifest steps ref) workspace.machine
      (fun _ after => after.Completes ref) fun _ _ => True := by
  have hprior : h.full.regime.Safe workspace.stage
      ((change >>= fun _ => pure ref) >>= fun ref => installManifest ref >>= fun _ => pure ref)
      workspace.machine fun next _ ref => next.outline.Names (.object ref) := by
    simp only [bind_assoc, pure_bind]
    rw [← bind_assoc]
    exact Regime.Safe.bind hchange fun _ _ _ hle hfits _ =>
      Regime.Safe.pure hfits (Outline.Names.mono hle.2 href)
  have hrun := h.remanifests hprior steps
  simpa only [bind_assoc, pure_bind, yields_bind, yields_pure] using hrun

theorem Sound.instantiate_completes (h : workspace.Sound) (steps : Nat) (cls : ClassId) :
    Yields (Machine.instantiate steps cls) workspace.machine
      (fun ref after => after.Completes ref) fun _ _ => True := by
  cases steps with
  | zero =>
    rw [Machine.instantiate]
    trivial
  | succ steps =>
    rw [Machine.instantiate]
    refine yields_bind.mpr (yields_get.mpr ?_)
    split
    case isTrue hcls =>
      exact h.remanifests ((Footing.safe_createObject h.full_fits hcls).mono
        fun _ _ _ _ _ hnew => hnew.1) steps
    case isFalse => trivial

/-- An object that was of the class before is complete if it was so. -/
theorem Sound.extend_completes (h : workspace.Sound) (href : workspace.machine.Knows (.object ref))
    (hobject : workspace.machine.heap.object? ref = some object) {cls : ClassId}
    (hbefore : object.embodies cls = true → object.Complete workspace.machine.classes)
    (steps : Nat) :
    Yields (extend steps ref cls) workspace.machine
      (fun _ after => after.Completes ref) fun _ _ => True := by
  have hcoherent := (h.running.object_sound hobject).object rfl
  cases steps with
  | zero =>
    rw [extend]
    trivial
  | succ steps =>
    rw [extend]
    refine yields_bind.mpr (yields_get.mpr ?_)
    split
    case isFalse => trivial
    case isTrue hcls =>
      rw [hobject]
      dsimp only
      split
      case isTrue hworn =>
        have hmem : cls ∈ object.manifest := by
          rw [hcoherent.manifest]
          exact ClassRegistry.mem_manifest_of_mem hworn
        exact ⟨object, hobject, hbefore (decide_eq_true ((hcoherent.types cls).mpr hmem))⟩
      case isFalse =>
        by_cases himplied : object.embodies cls = true
        · simp only [if_pos himplied]
          exact ⟨_, Heap.object?_modifyObject hobject, hbefore himplied⟩
        · simp only [if_neg himplied]
          exact h.reshapes href (h.full.discipline.extend_safe h.full_fits trivial hcls hcls
            hobject (by simpa using himplied)) steps

theorem Sound.retract_completes (h : workspace.Sound) (href : workspace.machine.Knows (.object ref))
    (steps : Nat) (cls : ClassId) :
    Yields (retract steps ref cls) workspace.machine
      (fun _ after => after.Completes ref) fun _ _ => True := by
  cases steps with
  | zero =>
    rw [retract]
    trivial
  | succ steps =>
    rw [retract]
    exact h.reshapes href (h.full.discipline.retract_safe h.full_fits trivial) steps

/-- Objects store no fields but those of what they are.  An object that was just made, or that was
given a class which it was not of, or that lost a class, stores all of them, unless an initializer
failed. -/
theorem fields_complete {options : Options} {sources : Sources}
    (h : Reachable options sources workspace) :
    (∀ ref object, workspace.machine.heap.object? ref = some object →
      ∀ key ∈ object.fields.keys,
        key.owner ∈ object.manifest ∧ workspace.machine.classes.HasField key) ∧
    (∀ steps cls ref after, Machine.instantiate steps cls workspace.machine = .ok ref after →
      after.Completes ref) ∧
    (∀ steps ref object cls after, workspace.machine.Knows (.object ref) →
      workspace.machine.heap.object? ref = some object →
      (object.embodies cls = true → object.Complete workspace.machine.classes) →
      extend steps ref cls workspace.machine = .ok ⟨⟩ after → after.Completes ref) ∧
    ∀ steps ref cls after, workspace.machine.Knows (.object ref) →
      retract steps ref cls workspace.machine = .ok ⟨⟩ after → after.Completes ref := by
  refine ⟨fun ref object hobject => (objects_coherent h hobject).fields, ?_, ?_, ?_⟩
  · intro steps cls ref after hrun
    exact (h.sound.instantiate_completes steps cls).of_ok hrun
  · intro steps ref object cls after href hobject hbefore hrun
    exact (h.sound.extend_completes href hobject hbefore steps).of_ok hrun
  · intro steps ref cls after href hrun
    exact (h.sound.retract_completes href steps cls).of_ok hrun

theorem die_complete : ∃ workspace ref after, Reachable {} diceSources workspace ∧
    Machine.instantiate 9 ⟨0⟩ workspace.machine = .ok ref after ∧ after.Completes ref := by
  obtain ⟨⟨ref, after⟩, hdie, -⟩ := Option.map_eq_some_iff.mp first_die
  obtain ⟨workspace, hreachable, -, hrun⟩ := reachable_imported rfl dice_tree rfl hdie
  exact ⟨workspace, ref, after, hreachable, hrun, (fields_complete hreachable).2.1 _ _ _ _ hrun⟩

end Workspace

end Attire
