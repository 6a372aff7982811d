import Attire.Proofs.Host.Dressing

namespace Attire

open Machine Workspace

/-! What the initializers of fields find on their object. -/

/-- The operation gives objects the fields that they lack. -/
def Activity.Furnishes : Activity → Prop
  | .instantiate .. | .extend .. | .retract .. | .restore .. => True
  | _ => False

/-- The object does not store the field yet, but it stores all fields of the ancestors of its class,
and those that its class declares earlier. -/
def Machine.Ready (machine : Machine) (ref : Ref) (key : FieldKey) : Prop :=
  ∃ object, machine.heap.object? ref = some object ∧ key ∉ object.fields.keys ∧
    ∀ other, machine.classes.HasField other →
      machine.classes.Descends key.owner other.owner ∨
        other.owner = key.owner ∧ other.index < key.index →
      other ∈ object.fields.keys

/-- The pass over the fields that an object lacks. -/
structure Machine.InitializesInOrder (machine : Machine) (steps : Nat) (ref : Ref) : Prop where
  /-- When it is a field's turn, the object is ready for it. -/
  turn {done rest : List PendingField} {field : PendingField} {moment : Machine} :
    machine.pending ref = done ++ field :: rest →
    done.forM (initializePending steps ref) machine = .ok ⟨⟩ moment → moment.Ready ref field.key
  /-- All that begins in the pass are initializers of fields that the object lacks. -/
  begun {part : Activity} {moment : Machine} :
    (Activity.initializeMissing (steps + 1) ref).Begins machine part moment →
    ∃ field ∈ machine.pending ref, ∃ routine, field.initializer = some routine ∧
      part = .invoke steps routine (.object ref) .null [] ∧ moment.Ready ref field.key
  /-- Whatever is stored at some point of the pass, by any object, is stored at its end. -/
  kept {done rest : List PendingField} {moment : Machine} {other : Ref} {key : FieldKey}
    {value : Value} :
    machine.pending ref = done ++ rest →
    done.forM (initializePending steps ref) machine = .ok ⟨⟩ moment →
    moment.Stores other key value →
    Yields (initializeMissing (steps + 1) ref) machine (fun _ after => after.Stores other key value)
      fun halt after => ∀ error, halt = .error error → after.Stores other key value

namespace Workspace

variable {workspace : Workspace} {machine : Machine} {ref : Ref} {steps : Nat}

/-- What comes before a field in the order of initializers is stored or was pending before it. -/
theorem Sound.ready (h : workspace.Sound) (href : workspace.machine.Knows (.object ref))
    {done rest : List PendingField} {field : PendingField} {moment : Machine}
    (hsplit : workspace.machine.pending ref = done ++ field :: rest)
    (hrun : done.forM (initializePending steps ref) workspace.machine = .ok ⟨⟩ moment) :
    moment.Ready ref field.key := by
  have hwants := h.wants href
  rw [hsplit] at hwants
  obtain ⟨hlater, hfurnishes⟩ := (hwants.furnishes steps).of_ok hrun
  obtain ⟨object, hobject, hlacks⟩ := hwants.lacks
  obtain ⟨gained, random, hgained, hmoment⟩ := hfurnishes.object hobject
  obtain ⟨object', hobject', hlacks'⟩ := hlater.lacks
  obtain rfl := Option.some.inj (hmoment.symm.trans hobject')
  refine ⟨_, hmoment, (hlacks' field List.mem_cons_self).2, fun other hfield hearlier => ?_⟩
  have hclasses : moment.classes = workspace.machine.classes := hfurnishes.spares.classes
  rw [hclasses] at hfield hearlier
  have hkeys : ∀ key, key ∈ object.fields.keys ∨ key ∈ done.map PendingField.key →
      key ∈ (⟨object.fields.entries ++ gained⟩ : Table FieldKey Value).keys := by
    rintro key hkey
    rw [Table.keys, List.map_append, hgained]
    exact List.mem_append.mpr hkey
  have howner : other.owner ∈ object.manifest := by
    obtain ⟨hown, -⟩ := hlacks field (by simp)
    rcases hearlier with hdescends | ⟨hsame, -⟩
    · rw [((h.running.object_sound hobject).object rfl).manifest] at hown ⊢
      obtain ⟨start, hstart, hpath⟩ := ClassRegistry.mem_manifest.mp hown
      exact ClassRegistry.mem_manifest.mpr ⟨start, hstart, hpath.trans hdescends.to_reflTransGen⟩
    · exact hsame ▸ hown
  refine hkeys other ?_
  rcases Machine.mem_keys_or_pending h.composed howner hfield with hstored | ⟨found, hfound, rfl⟩
  · exact .inl hstored
  · have hpairwise := h.pendingFields_pairwise hobject
    rw [← Machine.pending_eq hobject, hsplit] at hfound hpairwise
    rcases List.mem_append.mp hfound with hdone | hrest
    · exact .inr (List.mem_map.mpr ⟨found, hdone, rfl⟩)
    · -- The field itself and what comes after it cannot be earlier.
      have hlate := (List.pairwise_append.mp hpairwise).2.1
      rcases List.mem_cons.mp hrest with rfl | hrest
      · rcases hearlier with hdescends | ⟨-, hindex⟩
        · exact absurd hdescends (h.composed.acyclic _)
        · exact absurd hindex (lt_irrefl _)
      · obtain ⟨hascends, hindex⟩ := (List.pairwise_cons.mp hlate).1 found hrest
        rcases hearlier with hdescends | ⟨hsame, hless⟩
        · exact absurd hdescends hascends
        · exact absurd hless (lt_asymm (hindex hsame.symm))

theorem Sound.initializesInOrder (h : workspace.Sound)
    (href : workspace.machine.Knows (.object ref)) (steps : Nat) :
    workspace.machine.InitializesInOrder steps ref where
  turn := h.ready href
  begun hbegins := by
    cases hbegins with
    | initializer hsplit hrun hinitializer =>
      exact ⟨_, by simp [hsplit], _, hinitializer, rfl, h.ready href hsplit hrun⟩
  kept {done rest moment other key value} hsplit hrun hstores := by
    have hwants := h.wants href
    rw [hsplit] at hwants
    obtain ⟨hlater, -⟩ := (hwants.furnishes steps).of_ok hrun
    rw [← List.append_nil rest] at hlater
    have hrest : Yields (rest.forM (initializePending steps ref)) moment
        (fun _ after => after.Stores other key value)
        fun halt after => ∀ error, halt = .error error → after.Stores other key value := by
      refine (hlater.furnishes steps).imp ?_ ?_
      · exact fun _ _ ⟨_, hfurnishes⟩ => hfurnishes.stores hstores
      · intro halt after herror error heq
        obtain ⟨-, done, -, hfurnishes⟩ := herror error heq
        exact hfurnishes.stores hstores
    rw [initializeMissing_succ]
    refine yields_bind.mpr (yields_get.mpr ?_)
    rw [hsplit]
    unfold Yields
    rw [run_forM_append hrun]
    exact hrest

/-- Making another object leaves those that there are alone. -/
theorem Sound.instantiate_preserves (h : workspace.Sound) (steps : Nat) (cls : ClassId) :
    workspace.machine.Preserves (Machine.instantiate steps cls) := by
  by_cases hcls : workspace.machine.classes.contains cls
  · exact h.preserves ((h.plain.discipline.keeps steps).instantiate h.plain_fits hcls)
  · cases steps with
    | zero =>
      rw [Machine.instantiate]
      rintro error ⟨⟩
    | succ steps =>
      rw [Machine.instantiate]
      refine yields_bind.mpr (yields_get.mpr ?_)
      rw [if_neg hcls]
      exact fun _ _ => h.undisturbed (le_refl _) h.plain_fits

/-- So does restoring others. -/
theorem Sound.restore_preserves (h : workspace.Sound) (steps : Nat) (snapshot : Snapshot) :
    workspace.machine.Preserves (Machine.restore steps snapshot) := by
  refine Yields.imp (Footing.safe_restore h.named h.plain_fits steps snapshot) ?_ ?_
  · exact fun _ _ ⟨_, hle, hfits, _⟩ => h.undisturbed hle hfits
  · exact fun _ _ herror error heq =>
      let ⟨_, _, hle, hfits⟩ := herror error heq
      h.undisturbed hle hfits

/-- Whenever an object gets the fields that it lacks, in the course of whatever a host does, the
initializers run in the order of inheritance and declaration, and nothing that is stored is
initialized again or changed.  Objects keep what they store when others are made or restored, and
while they are of the class when they are extended or retracted. -/
theorem initializers_ordered {options : Options} {sources : Sources}
    (h : Reachable options sources workspace) :
    (∀ steps ref machine, workspace.Occurs (.initializeMissing (steps + 1) ref) machine →
      machine.InitializesInOrder steps ref) ∧
    ∀ activity machine, workspace.Occurs activity machine → activity.Furnishes →
      Yields activity.run machine (fun _ after => machine.KeepsFields after)
        fun halt after => ∀ error, halt = .error error → machine.KeepsFields after := by
  refine ⟨fun steps ref machine hoccurs => ?_, fun activity machine hoccurs hactivity => ?_⟩
  · obtain ⟨stage, hfits, href⟩ := h.sound.allows_occurring hoccurs
    obtain ⟨hsound, hknows⟩ := h.sound.moment hfits
    exact hsound.initializesInOrder (hknows (.object ref) href) steps
  · obtain ⟨stage, hallows⟩ := h.sound.allows_occurring hoccurs
    have hpreserves : ∀ {α : Type} {action : Run α}, machine.Preserves action →
        Yields (discard action) machine (fun _ after => machine.KeepsFields after)
          fun halt after => ∀ error, halt = .error error → machine.KeepsFields after :=
      fun hpreserves => yields_map.mpr (hpreserves.imp
        (fun _ _ hundisturbed => hundisturbed.keepsFields)
        fun _ _ herror error heq => (herror error heq).keepsFields)
    cases activity with
    | instantiate steps cls =>
      obtain ⟨hsound, -⟩ := h.sound.moment hallows.1
      exact hpreserves (hsound.instantiate_preserves steps cls)
    | restore steps snapshot =>
      obtain ⟨hsound, -⟩ := h.sound.moment hallows.1
      exact hpreserves (hsound.restore_preserves steps snapshot)
    | extend steps ref cls =>
      obtain ⟨hsound, hknows⟩ := h.sound.moment hallows.1
      have hextends := hsound.extend_dresses (hknows (.object ref) hallows.2) steps cls
      refine yields_map.mpr (hextends.imp (fun _ _ hdresses => hdresses.keepsFields) ?_)
      intro halt after herror error heq
      obtain ⟨done, -, hdresses⟩ := herror error heq
      exact hdresses.keepsFields
    | retract steps ref cls =>
      obtain ⟨hsound, hknows⟩ := h.sound.moment hallows.1
      have hretracts := hsound.retract_dresses (hknows (.object ref) hallows.2) steps cls
      exact yields_map.mpr (hretracts.imp (fun _ _ hdresses => hdresses.keepsFields)
        fun _ _ herror error heq => (herror error heq).keepsFields)
    | _ => exact hactivity.elim

/-! A crested bird is made. -/

/-- The object of the class before it has any fields. -/
def bareObject? (sources : Sources) (tree : ModuleTree) (cls : ClassId) : Option (Ref × Machine) :=
  (reached? (build (importBelow sources.size ["weft:core"]) "weft:core" tree)
    (ofSources {} sources)).bind fun (_, built) =>
      if built.machine.classes.contains cls then
        (reached? (create (.object { worn := [cls] })) built.machine).bind fun (ref, made) =>
          (reached? (installManifest ref) made).map fun (_, bare) => (ref, bare)
      else none

/-- Its fields are missing in the course of making the object. -/
theorem reachable_bareObject {sources : Sources} {text : String} {tree : ModuleTree}
    {notes : List String × String} {cls : ClassId} (hfetch : sources.fetch "weft:core" = .ok text)
    (htree : ModuleTree.ofText? text = some tree) (hnotices : notices "weft:core" tree = .ok notes)
    (hbare : bareObject? sources tree cls = some (ref, machine)) (steps : Nat) :
    ∃ workspace, Reachable {} sources workspace ∧
      workspace.Occurs (.initializeMissing steps ref) machine := by
  obtain ⟨⟨draft, built⟩, hbuilt, hrest⟩ := Option.bind_eq_some_iff.mp hbare
  obtain ⟨id, workspace, himport, hmachine⟩ :=
    importModule_eq_ok rfl hfetch htree hnotices (reached?_eq_some.mp hbuilt)
  dsimp only at hrest
  split at hrest
  case isFalse => cases hrest
  case isTrue hcls =>
    obtain ⟨⟨made, created⟩, hmade, hrest⟩ := Option.bind_eq_some_iff.mp hrest
    obtain ⟨⟨⟨⟩, bare⟩, hfitted, heq⟩ := Option.map_eq_some_iff.mp hrest
    cases heq
    rw [← hmachine] at hcls hmade
    have hmakes : (Activity.instantiate (steps + 2) cls).Begins workspace.machine
        (.remanifest (steps + 1) made) created := .made hcls (reached?_eq_some.mp hmade)
    have hmisses : (Activity.remanifest (steps + 1) made).Begins created
        (.initializeMissing steps made) bare := .missing (reached?_eq_some.mp hfitted)
    exact ⟨workspace, .imported .start himport, .instantiate (steps + 2) cls, 0, trivial,
      (Activity.Comprises.itself.begins hmakes).begins hmisses⟩

set_option maxRecDepth 100000 in
theorem first_pending : (bareObject? flockSources flockTree ⟨2⟩).map (fun (ref, bare) =>
    (bare.pending ref).map PendingField.key) = some [⟨⟨1⟩, 0⟩, ⟨⟨2⟩, 0⟩] := by
  decide +kernel

theorem birds_initialized :
    (∃ workspace ref bare, Reachable {} flockSources workspace ∧
      workspace.Occurs (.initializeMissing 18 ref) bare ∧
      (bare.pending ref).map PendingField.key = [⟨⟨1⟩, 0⟩, ⟨⟨2⟩, 0⟩] ∧
      bare.InitializesInOrder 17 ref) ∧
    ∃ workspace bird object crested last, Moults workspace bird object crested last ∧
      workspace.machine.KeepsFields crested := by
  constructor
  · obtain ⟨⟨ref, bare⟩, hbare, hpending⟩ := Option.map_eq_some_iff.mp first_pending
    obtain ⟨workspace, hreachable, hoccurs⟩ := reachable_bareObject rfl flock_tree rfl hbare 18
    exact ⟨workspace, ref, bare, hreachable, hoccurs, hpending,
      (initializers_ordered hreachable).1 17 ref bare hoccurs⟩
  · obtain ⟨workspace, bird, object, crested, last, h⟩ := bird_moults
    have hkeeps := (initializers_ordered h.reachable).2 (.extend 20 bird ⟨2⟩) workspace.machine
      h.occurs trivial
    exact ⟨workspace, bird, object, crested, last, h, (yields_map.mp hkeeps).of_ok h.extended⟩

end Workspace

end Attire
