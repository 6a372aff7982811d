import Attire.Proofs.Classes.Ancestry
import Attire.Proofs.Host.Completeness
import Attire.Proofs.Host.Moments

namespace Attire

open Machine Workspace

/-! How objects get the fields that they lack, and what else changes meanwhile. -/

namespace Entity.Redrawn

variable {before after last : Entity}

theorem refl (entity : Entity) : entity.Redrawn entity := by
  cases entity with
  | object object => exact ⟨object.random, rfl⟩
  | _ => rfl

theorem trans (h : before.Redrawn after) (h' : after.Redrawn last) : before.Redrawn last := by
  cases before with
  | object object =>
    obtain ⟨random, rfl⟩ := h
    obtain ⟨random', rfl⟩ := h'
    exact ⟨random', rfl⟩
  | _ =>
    obtain rfl : after = _ := h
    exact h'

end Entity.Redrawn

/-- What there was at other addresses is as it was, but for the random streams of objects. -/
structure Machine.Spares (touched : Nat → Prop) (before after : Machine) : Prop where
  cells {address : Nat} {cell : Cell} : ¬touched address → before.heap.cells[address]? = some cell →
    ∃ cell', after.heap.cells[address]? = some cell' ∧ cell'.id = cell.id ∧
      cell.entity.Redrawn cell'.entity
  classes : after.classes = before.classes
  depth : after.depth = before.depth
  tick : after.tick = before.tick
  callLimit : after.callLimit = before.callLimit

theorem Machine.Undisturbed.spares {before after : Machine} (h : before.Undisturbed after)
    (touched : Nat → Prop) : before.Spares touched after where
  cells _ hcell := h.cells hcell
  classes := h.classes
  depth := h.depth
  tick := h.tick
  callLimit := h.callLimit

namespace Machine.Spares

variable {touched touched' : Nat → Prop} {before after last : Machine} {ref : Ref}

theorem refl (touched : Nat → Prop) (machine : Machine) : machine.Spares touched machine where
  cells _ hcell := ⟨_, hcell, rfl, .refl _⟩
  classes := rfl
  depth := rfl
  tick := rfl
  callLimit := rfl

theorem trans (h : before.Spares touched after) (h' : after.Spares touched last) :
    before.Spares touched last where
  cells hspared hcell := by
    obtain ⟨cell', hcell', hid, hredrawn⟩ := h.cells hspared hcell
    obtain ⟨cell'', hcell'', hid', hredrawn'⟩ := h'.cells hspared hcell'
    exact ⟨cell'', hcell'', hid'.trans hid, hredrawn.trans hredrawn'⟩
  classes := h'.classes.trans h.classes
  depth := h'.depth.trans h.depth
  tick := h'.tick.trans h.tick
  callLimit := h'.callLimit.trans h.callLimit

theorem mono (h : before.Spares touched after)
    (hle : ∀ address, touched address → touched' address) : before.Spares touched' after :=
  { h with cells := fun hspared hcell => h.cells (fun htouched => hspared (hle _ htouched)) hcell }

theorem modify (h : before.Spares touched after) (htouched : touched ref.address)
    (change : Entity → Entity) :
    before.Spares touched { after with heap := after.heap.modify ref change } :=
  { h with
    cells := fun {address} {_} hspared hcell => by
      have hne : ref.address ≠ address := fun heq => hspared (heq ▸ htouched)
      rw [Heap.cell_modify, if_neg hne]
      exact h.cells hspared hcell }

theorem modifyObject (h : before.Spares touched after) (htouched : touched ref.address)
    (change : Object → Object) :
    before.Spares touched { after with heap := after.heap.modifyObject ref change } :=
  h.modify htouched _

theorem object (h : before.Spares touched after) (hspared : ¬touched ref.address) {object : Object}
    (hobject : before.heap.object? ref = some object) :
    ∃ random, after.heap.object? ref = some { object with random } := by
  obtain ⟨cell, hcell, hentity⟩ := Heap.entity?_eq_some.mp (Heap.object?_eq_some.mp hobject)
  obtain ⟨cell', hcell', -, hredrawn⟩ := h.cells hspared hcell
  rw [hentity] at hredrawn
  obtain ⟨random, hrandom⟩ := hredrawn
  exact ⟨random, Heap.object?_eq_some.mpr (Heap.entity?_eq_some.mpr ⟨cell', hcell', hrandom⟩)⟩

end Machine.Spares

/-- The object stores more fields than before, in that order, and keeps what it stored. -/
structure Machine.Furnishes (ref : Ref) (keys : List FieldKey) (before after : Machine) : Prop where
  spares : before.Spares (· = ref.address) after
  object {object : Object} : before.heap.object? ref = some object →
    ∃ gained random, gained.map Prod.fst = keys ∧ after.heap.object? ref =
      some { object with fields := ⟨object.fields.entries ++ gained⟩, random }

namespace Machine.Furnishes

variable {ref : Ref} {keys more : List FieldKey} {before after last : Machine}

theorem of_undisturbed (h : before.Undisturbed after) : before.Furnishes ref [] after where
  spares := h.spares _
  object {object} hobject := by
    obtain ⟨random, hafter⟩ := h.object hobject
    exact ⟨[], random, rfl, by rw [hafter, List.append_nil]⟩

theorem refl (ref : Ref) (machine : Machine) : machine.Furnishes ref [] machine where
  spares := .refl _ machine
  object {object} hobject := ⟨[], object.random, rfl, by rw [hobject, List.append_nil]⟩

theorem trans (h : before.Furnishes ref keys after) (h' : after.Furnishes ref more last) :
    before.Furnishes ref (keys ++ more) last where
  spares := h.spares.trans h'.spares
  object hobject := by
    obtain ⟨gained, random, rfl, hafter⟩ := h.object hobject
    obtain ⟨gained', random', rfl, hlast⟩ := h'.object hafter
    exact ⟨gained ++ gained', random', by rw [List.map_append], by
      rw [hlast, List.append_assoc]⟩

end Machine.Furnishes

/-- The object stores the value. -/
def Machine.Stores (machine : Machine) (ref : Ref) (key : FieldKey) (value : Value) : Prop :=
  ∃ object, machine.heap.object? ref = some object ∧ object.fields.get? key = some value

theorem Table.find_append {κ : Type u} {α : Type v} [DecidableEq κ] {key : κ} {value : α}
    {entries more : List (κ × α)} (h : find key entries = some value) :
    find key (entries ++ more) = some value := by
  induction entries with
  | nil => cases h
  | cons entry rest ih =>
    obtain ⟨other, old⟩ := entry
    by_cases heq : other = key
    · simpa [find, heq] using h
    · simp only [List.cons_append, find, if_neg heq] at h ⊢
      exact ih h

theorem Machine.Furnishes.stores {ref other : Ref} {keys : List FieldKey} {before after : Machine}
    {key : FieldKey} {value : Value} (h : before.Furnishes ref keys after)
    (hstores : before.Stores other key value) : after.Stores other key value := by
  obtain ⟨object, hobject, hvalue⟩ := hstores
  by_cases haddress : other.address = ref.address
  · have hsame (heap : Heap) : heap.object? other = heap.object? ref := by
      simp only [Heap.object?, Heap.entity?, haddress]
    rw [hsame] at hobject
    obtain ⟨gained, random, -, hafter⟩ := h.object hobject
    exact ⟨_, (hsame _).trans hafter, Table.find_append hvalue⟩
  · obtain ⟨random, hafter⟩ := h.spares.object haddress hobject
    exact ⟨_, hafter, hvalue⟩

theorem Table.insertIfNew_entries {κ : Type u} {α : Type v} [DecidableEq κ] {table : Table κ α}
    {key : κ} {value : α} (h : key ∉ table.keys) :
    (table.insertIfNew key value).entries = table.entries ++ [(key, value)] := by
  have hnew : ¬table.contains key := fun hcontains => h (contains_iff.mp hcontains)
  rw [insertIfNew, if_neg hnew, insert_of_notMem h]

namespace Workspace

variable {workspace : Workspace} {ref : Ref} {machine : Machine} {pending : List PendingField}
variable {field : PendingField} {rest : List PendingField} {steps : Nat}

/-- Every one of the fields is missing from the object, which is of the class of each. -/
structure Wants (workspace : Workspace) (ref : Ref) (pending : List PendingField)
    (machine : Machine) : Prop where
  sound : Sound { workspace with machine }
  knows : machine.Knows (.object ref)
  fields : ∀ field ∈ pending, machine.classes.HasField field.key ∧
    ∀ routine, field.initializer = some routine → machine.classes.Initializes routine
  lacks : ∃ object, machine.heap.object? ref = some object ∧
    ∀ field ∈ pending, field.key.owner ∈ object.manifest ∧ field.key ∉ object.fields.keys
  distinct : pending.Pairwise fun a b => a.key ≠ b.key

theorem Wants.initializeNext (h : workspace.Wants ref (field :: rest) machine) (steps : Nat) :
    Yields (initializePending steps ref field) machine
      (fun _ next => workspace.Wants ref rest next ∧ machine.Furnishes ref [field.key] next)
      fun halt next => ∀ error, halt = .error error →
        Sound { workspace with machine := next } ∧ machine.Furnishes ref [] next := by
  have hsound := h.sound
  obtain ⟨object, hobject, hlacks⟩ := h.lacks
  obtain ⟨howner, hfresh⟩ := hlacks field List.mem_cons_self
  obtain ⟨hfield, hroutine⟩ := h.fields field List.mem_cons_self
  obtain ⟨hne, hdistinct⟩ := List.pairwise_cons.mp h.distinct
  have hcoherent := (hsound.running.object_sound hobject).object rfl
  refine hsound.yields_initializePending h.knows hroutine ?_ ?_
  · intro value after hreplaces hundisturbed hvalue
    have hafter : Sound { workspace with machine := after } := hreplaces.sound_workspace hsound
    obtain ⟨random, hobject'⟩ := hundisturbed.object hobject
    have hclasses : after.classes = machine.classes := hundisturbed.classes
    have hstored : Replaces { workspace with machine := after } { after with
        heap := after.heap.modifyObject ref fun object =>
          if object.embodies field.key.owner then
            { object with fields := object.fields.insertIfNew field.key value }
          else object } := hafter.stores (hclasses.symm ▸ hfield) hvalue
    have hembodies : Object.embodies { object with random } field.key.owner = true :=
      decide_eq_true ((hcoherent.types _).mpr howner)
    have hentries : (object.fields.insertIfNew field.key value).entries =
        object.fields.entries ++ [(field.key, value)] := Table.insertIfNew_entries hfresh
    have hnext : (after.heap.modifyObject ref fun object =>
        if object.embodies field.key.owner then
          { object with fields := object.fields.insertIfNew field.key value }
        else object).object? ref =
        some { object with fields := object.fields.insertIfNew field.key value, random } := by
      rw [Heap.object?_modifyObject hobject', if_pos hembodies]
    refine ⟨⟨hstored.sound_workspace hafter, hstored.knows (hreplaces.knows h.knows),
      fun other hmem => hclasses ▸ h.fields other (List.mem_cons_of_mem _ hmem),
      ⟨_, hnext, fun other hmem => ?_⟩, hdistinct⟩,
      (hundisturbed.spares (· = ref.address)).modify rfl _, ?_⟩
    · obtain ⟨howner', hfresh'⟩ := hlacks other (List.mem_cons_of_mem _ hmem)
      refine ⟨howner', fun hmem' => ?_⟩
      rcases Table.mem_keys_insertIfNew.mp hmem' with heq | hmem'
      · exact hne other hmem heq.symm
      · exact hfresh' hmem'
    · intro other hother
      obtain rfl := Option.some.inj (hobject.symm.trans hother)
      refine ⟨[(field.key, value)], random, rfl, ?_⟩
      rw [← hentries]
      exact hnext
  · intro halt after herror error heq
    obtain ⟨hreplaces, hundisturbed⟩ := herror error heq
    exact ⟨hreplaces.sound_workspace hsound, .of_undisturbed hundisturbed⟩

/-- The pass over missing fields adds them one after the other; if one of them fails, those before
it are there. -/
theorem Wants.furnishes {now later : List PendingField}
    (h : workspace.Wants ref (now ++ later) machine) (steps : Nat) :
    Yields (now.forM (initializePending steps ref)) machine
      (fun _ next => workspace.Wants ref later next ∧
        machine.Furnishes ref (now.map PendingField.key) next)
      fun halt next => ∀ error, halt = .error error →
        Sound { workspace with machine := next } ∧
          ∃ done, done <+: now ∧ machine.Furnishes ref (done.map PendingField.key) next := by
  induction now generalizing machine with
  | nil => exact ⟨h, .refl ref machine⟩
  | cons field rest ih =>
    refine yields_bind.mpr ((h.initializeNext steps).imp ?_ ?_)
    · rintro _ next ⟨hnext, hfurnishes⟩
      refine (ih hnext).imp ?_ ?_
      · exact fun _ last ⟨hlast, hrest⟩ => ⟨hlast, hfurnishes.trans hrest⟩
      · intro halt last herror error heq
        obtain ⟨hsound, done, hdone, hrest⟩ := herror error heq
        exact ⟨hsound, field :: done, List.cons_prefix_cons.mpr ⟨rfl, hdone⟩,
          hfurnishes.trans hrest⟩
    · intro halt next herror error heq
      obtain ⟨hsound, hfurnishes⟩ := herror error heq
      exact ⟨hsound, [], List.nil_prefix, hfurnishes⟩

end Workspace

theorem Machine.pending_eq {machine : Machine} {ref : Ref} {object : Object}
    (hobject : machine.heap.object? ref = some object) :
    machine.pending ref = machine.pendingFields object := by
  rw [Machine.pending, hobject]
  rfl

/-- Pending fields are listed in the order of the manifest and of their declaration. -/
theorem Machine.pendingFields_pairwise {machine : Machine} {object : Object}
    (hcomposed : machine.classes.Composed)
    (hlayered : Layered machine.classes.parents object.manifest) :
    (machine.pendingFields object).Pairwise fun a b =>
      ¬machine.classes.Descends a.key.owner b.key.owner ∧
        (a.key.owner = b.key.owner → a.key.index < b.key.index) := by
  have hacyclic := hcomposed.acyclic
  refine List.pairwise_flatMap.mpr ⟨fun found hfound => ?_, ?_⟩
  · refine List.pairwise_map.mpr (List.Pairwise.filter _ ?_)
    refine List.pairwise_iff_getElem.mpr fun i j hi hj hlt => ?_
    simp only [ClassDef.ownFieldKeys, List.getElem_mapIdx]
    exact ⟨hacyclic found.id, fun _ => hlt⟩
  · refine List.pairwise_filterMap.mpr (hlayered.pairwise.imp ?_)
    rintro a b ⟨hne, hpath⟩ found hfound found' hfound' field hfield field' hfield'
    obtain ⟨entry, hentry, rfl⟩ := List.mem_map.mp hfield
    obtain ⟨entry', hentry', rfl⟩ := List.mem_map.mp hfield'
    obtain ⟨_, _, rfl⟩ := List.mem_mapIdx.mp (List.mem_filter.mp hentry).1
    obtain ⟨_, _, rfl⟩ := List.mem_mapIdx.mp (List.mem_filter.mp hentry').1
    obtain rfl := hcomposed.id hfound
    obtain rfl := hcomposed.id hfound'
    exact ⟨hpath, fun heq => absurd heq hne⟩

namespace Workspace

variable {workspace : Workspace} {ref : Ref}

theorem Sound.pendingFields_pairwise (h : workspace.Sound) {object : Object}
    (hobject : workspace.machine.heap.object? ref = some object) :
    (workspace.machine.pendingFields object).Pairwise fun a b =>
      ¬workspace.machine.classes.Descends a.key.owner b.key.owner ∧
        (a.key.owner = b.key.owner → a.key.index < b.key.index) := by
  refine Machine.pendingFields_pairwise h.composed ?_
  rw [((h.running.object_sound hobject).object rfl).manifest]
  exact h.composed.acyclic.layered _

theorem Sound.wants (h : workspace.Sound) (href : workspace.machine.Knows (.object ref)) :
    workspace.Wants ref (workspace.machine.pending ref) workspace.machine := by
  obtain ⟨object, hobject⟩ := Heap.object?_of_names href
  rw [Machine.pending_eq hobject]
  refine ⟨h, href, fun field hmem => Footing.mem_pendingFields h.full_fits hmem,
    ⟨object, hobject, fun field hmem => ?_⟩,
    (h.pendingFields_pairwise hobject).imp fun {a b} ⟨_, hindex⟩ heq => ?_⟩
  · obtain ⟨found, hfound, hfield⟩ := List.mem_flatMap.mp hmem
    obtain ⟨cls, hcls, hget⟩ := List.mem_filterMap.mp hfound
    obtain ⟨entry, hentry, rfl⟩ := List.mem_map.mp hfield
    obtain ⟨hown, hlacks⟩ := List.mem_filter.mp hentry
    obtain ⟨_, _, rfl⟩ := List.mem_mapIdx.mp hown
    refine ⟨by rwa [h.composed.id hget], fun hstored => ?_⟩
    rw [Table.contains_iff.mpr hstored] at hlacks
    cases hlacks
  · have hlt := hindex (by rw [heq])
    rw [heq] at hlt
    exact absurd hlt (lt_irrefl _)

theorem Sound.furnishes (h : workspace.Sound) (href : workspace.machine.Knows (.object ref))
    (steps : Nat) :
    Yields (initializeMissing steps ref) workspace.machine
      (fun _ after => Sound { workspace with machine := after } ∧ workspace.machine.Furnishes ref
        ((workspace.machine.pending ref).map PendingField.key) after)
      fun halt after => ∀ error, halt = .error error →
        Sound { workspace with machine := after } ∧
          ∃ done, done <+: workspace.machine.pending ref ∧
            workspace.machine.Furnishes ref (done.map PendingField.key) after := by
  cases steps with
  | zero => rintro error ⟨⟩
  | succ steps =>
    have hwants := h.wants href
    rw [← List.append_nil (workspace.machine.pending ref)] at hwants
    rw [initializeMissing_succ]
    exact yields_bind.mpr (yields_get.mpr ((hwants.furnishes steps).imp
      (fun _ _ ⟨hlast, hfurnishes⟩ => ⟨hlast.sound, hfurnishes⟩) fun _ _ h => h))

end Workspace

end Attire
