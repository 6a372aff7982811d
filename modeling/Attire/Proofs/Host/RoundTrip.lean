import Attire.Proofs.Host.Effects
import Attire.Proofs.Snapshot.Restoring

namespace Attire

open Capture Machine

/-! Graphs carried from one workspace to another. -/

namespace Workspace

variable {workspace other : Workspace}

/-- A snapshot of a graph is restored wherever the classes of the graph have counterparts.  The
restored graph has the same snapshot, and mirrors the old one entity by entity: mentions are of one
entity exactly if they were before. -/
theorem snapshot_restored {options options' : Options} {sources sources' : Sources}
    (h : Reachable options sources workspace) (h' : Reachable options' sources' other) {root : Value}
    (hroot : workspace.machine.Knows root) (hportable : workspace.machine.Portable root)
    (hcounterpart : ∀ cls, Involves workspace.machine root cls → ∃ found,
      workspace.machine.classes.Counterpart other.machine.classes cls found) (steps : Nat) :
    ∃ root' next twin, restore (steps + 1) (workspace.snapshot root) other = .ok root' next ∧
      next.snapshot root' = workspace.snapshot root ∧
      Mirrors workspace.machine root next.machine root' twin ∧
      ∀ a b, Reaches workspace.machine (refs root) a → Reaches workspace.machine (refs root) b →
        ((twin a).address = (twin b).address ↔ a.address = b.address) := by
  have hpassage : Passage workspace.machine root other.machine.classes :=
    ⟨h.sound.composed, h.sound.running, hroot, hportable, h'.sound.composed, h'.sound.named,
      fun hcls => hcounterpart _ hcls⟩
  obtain ⟨root', machine, hrun, hclasses, twin, hmirrors⟩ :=
    (hpassage.restore_succeeds rfl steps).exists_ok
  rw [← hclasses] at hpassage
  have htwins := hmirrors.twins hpassage
  refine ⟨root', { other with machine }, twin, ?_, ?_, hmirrors, fun a b ha hb => ?_⟩
  · rw [restore, run]
    dsimp only [snapshot, EStateM.run]
    rw [hrun]
  · exact htwins.capture_eq (fun _ => hpassage.has) hportable.distinct
  · exact htwins.address_iff (fun _ => hpassage.has) hportable.distinct ha hb

/-! One object, mentioned three times. -/

set_option maxRecDepth 100000 in
theorem first_die_stored :
    (firstObject? diceSources diceTree 9 ⟨0⟩).map (fun (ref, after) =>
      (ref, after.heap.outline.cells, after.classes.find? "weft:core#Object",
        (after.heap.object? ref).map (fun object => (object.manifest, object.fields.entries)),
        (after.classes.get? ⟨0⟩).map fun found =>
          (found.qualifiedName, found.parents, found.ownFields.map OwnField.name))) =
    some (⟨0, ⟨0⟩⟩, [(⟨0⟩, .object)], some ⟨0⟩, some ([⟨0⟩], [(⟨⟨0⟩, 0⟩, .bool true)]),
      some ("weft:core#Object", [], ["lucky"])) := by
  cbv

def firstDie : Ref := ⟨0, ⟨0⟩⟩

/-- The die twice, and a suggestion about it. -/
def dicePair : Value :=
  .tuple [.object firstDie, .object firstDie, .suggestion 0 [.extend (.object firstDie) ⟨0⟩]]

/-- A machine with a die. -/
structure HasDie (machine : Machine) (die : Object) (cls : ClassDef) : Prop where
  names : machine.heap.outline.Names (.object firstDie)
  stored : machine.heap.object? firstDie = some die
  manifest : die.manifest = [⟨0⟩]
  fields : die.fields.entries = [(⟨⟨0⟩, 0⟩, .bool true)]
  found : machine.classes.get? ⟨0⟩ = some cls
  find : machine.classes.find? "weft:core#Object" = some ⟨0⟩
  qualifiedName : cls.qualifiedName = "weft:core#Object"
  parents : cls.parents = []
  ownFields : cls.ownFields.map OwnField.name = ["lucky"]

theorem die_imported : ∃ workspace other die cls, Reachable {} diceSources workspace ∧
    Reachable {} diceSources other ∧ other.machine.classes = workspace.machine.classes ∧
    HasDie workspace.machine die cls := by
  obtain ⟨⟨ref, after⟩, hdie, hafter⟩ := Option.map_eq_some_iff.mp first_die_stored
  simp only [Prod.mk.injEq] at hafter
  obtain ⟨rfl, hcells, hfind, hobject, hclass⟩ := hafter
  obtain ⟨object, hobject, hstored⟩ := Option.map_eq_some_iff.mp hobject
  obtain ⟨found, hfound, hdeclared⟩ := Option.map_eq_some_iff.mp hclass
  simp only [Prod.mk.injEq] at hstored hdeclared
  obtain ⟨other, hother, hclasses, -⟩ := reachable_imported rfl dice_tree rfl hdie
  obtain ⟨workspace, hreachable, rfl⟩ := reachable_firstObject rfl dice_tree rfl hdie
  have hnames : workspace.machine.heap.outline.Names (.object firstDie) := by
    show workspace.machine.heap.outline.cells[0]? = some (⟨0⟩, .object)
    rw [hcells]
    rfl
  exact ⟨workspace, other, object, found, hreachable, hother, hclasses, hnames, hobject, hstored.1,
    hstored.2, hfound, hfind, hdeclared.1, hdeclared.2.1, hdeclared.2.2⟩

namespace HasDie

variable {machine : Machine} {die : Object} {cls : ClassDef} {ref : Ref} {value : Value}

theorem bool_of_content (h : HasDie machine die cls)
    (hvalue : value ∈ contents machine (.object die)) : value = .bool true := by
  have hstored : value ∈ die.fields.values := mem_contents hvalue
  simpa [Table.values, h.fields] using hstored

theorem name_of_owns (h : HasDie machine die cls) {key : FieldKey} {own : OwnField}
    (hown : machine.classes.Owns key own) (howner : key.owner = ⟨0⟩) : own.name = "lucky" := by
  obtain ⟨found, hfound, hindex⟩ := hown
  rw [howner, h.found] at hfound
  obtain rfl := Option.some.inj hfound
  have hname := List.mem_map_of_mem (f := OwnField.name) (List.mem_of_getElem? hindex)
  rwa [h.ownFields, List.mem_singleton] at hname

theorem eq_of_reaches (h : HasDie machine die cls)
    (hreach : Reaches machine (refs dicePair) ref) : ref = firstDie := by
  induction hreach with
  | start hmem => simpa [dicePair, refs, refsOfAll, refsOfSteps, refsOfStep] using hmem
  | inside _ hinner ih =>
    subst ih
    rw [entityRefs, Heap.object?_eq_some.mp h.stored] at hinner
    obtain ⟨value, hvalue, hmem⟩ := mem_refsOfAll.mp hinner
    rw [h.bool_of_content hvalue] at hmem
    cases hmem

theorem eq_of_involves (h : HasDie machine die cls) {id : ClassId}
    (hcls : Involves machine dicePair id) : id = ⟨0⟩ := by
  cases hcls with
  | root hcls => simpa [dicePair, classesOf, classesOfAll, classesOfSteps, classesOfStep] using hcls
  | manifest hreach hobject hcls =>
    obtain rfl := h.eq_of_reaches hreach
    obtain rfl := Option.some.inj (h.stored.symm.trans hobject)
    simpa [h.manifest] using hcls
  | content hreach hentity hvalue hcls =>
    obtain rfl := h.eq_of_reaches hreach
    obtain rfl := Option.some.inj ((Heap.object?_eq_some.mp h.stored).symm.trans hentity)
    rw [h.bool_of_content hvalue] at hcls
    cases hcls

theorem portable (h : HasDie machine die cls) : machine.Portable dicePair := by
  have hentity := Heap.object?_eq_some.mp h.stored
  constructor
  case distinct =>
    intro a b ha hb _
    rw [h.eq_of_reaches ha, h.eq_of_reaches hb]
  case object =>
    intro ref other hreach hother
    obtain rfl := h.eq_of_reaches hreach
    obtain rfl := Option.some.inj (h.stored.symm.trans hother)
    have howner : ∀ {key : FieldKey}, key.owner ∈ die.manifest → key.owner = ⟨0⟩ := by
      intro key hkey
      rw [h.manifest] at hkey
      exact List.mem_singleton.mp hkey
    refine ⟨⟨fun a ha b hb _ => ?_, fun {key own} hkey hown => ?_⟩, fun {key} hkey hfield => ?_⟩
    · rw [h.manifest, List.mem_singleton] at ha hb
      rw [ha, hb]
    · rw [h.name_of_owns hown (howner hkey)]
      decide
    · obtain ⟨other, hother, hindex⟩ := hfield
      obtain ⟨owner, index⟩ := key
      obtain rfl : owner = ⟨0⟩ := howner hkey
      rw [h.found] at hother
      obtain rfl := Option.some.inj hother
      rw [← List.length_map OwnField.name, h.ownFields] at hindex
      obtain rfl : index = 0 := Nat.lt_one_iff.mp hindex
      exact Table.contains_iff.mpr (by simp [Table.keys, h.fields])
  case key =>
    intro ref entries hreach hentries
    obtain rfl := h.eq_of_reaches hreach
    rw [Heap.map?_eq_some, hentity] at hentries
    cases hentries
  case element =>
    intro ref entries hreach hentries
    obtain rfl := h.eq_of_reaches hreach
    rw [Heap.set?_eq_some, hentity] at hentries
    cases hentries

theorem counterpart (h : HasDie machine die cls) :
    machine.classes.Counterpart machine.classes ⟨0⟩ ⟨0⟩ := by
  have hname : machine.classes.qualifiedNameOf ⟨0⟩ = "weft:core#Object" :=
    (ClassRegistry.qualifiedNameOf_eq h.found).trans h.qualifiedName
  refine ⟨hname ▸ h.find, fun _ => Iff.rfl, ?_⟩
  rw [ClassRegistry.parents_eq h.found, h.parents]
  rfl

end HasDie

theorem die_restored : ∃ workspace other, Reachable {} diceSources workspace ∧
    Reachable {} diceSources other ∧ workspace.machine.Knows dicePair ∧
    workspace.machine.Portable dicePair ∧
    (∀ cls, Involves workspace.machine dicePair cls → ∃ found,
      workspace.machine.classes.Counterpart other.machine.classes cls found) ∧
    ∃ root' next twin, restore 1 (workspace.snapshot dicePair) other = .ok root' next ∧
      next.snapshot root' = workspace.snapshot dicePair ∧
      Mirrors workspace.machine dicePair next.machine root' twin := by
  obtain ⟨workspace, other, die, cls, hreachable, hother, hclasses, hdie⟩ := die_imported
  have hcls := ClassRegistry.contains_iff.mpr ⟨cls, hdie.found⟩
  have hknows : workspace.machine.Knows dicePair :=
    ⟨hdie.names, hdie.names, ⟨⟨hcls, hdie.names⟩, trivial⟩, trivial⟩
  have hcounterpart : ∀ cls, Involves workspace.machine dicePair cls → ∃ found,
      workspace.machine.classes.Counterpart other.machine.classes cls found := by
    intro cls hcls
    rw [hdie.eq_of_involves hcls, hclasses]
    exact ⟨⟨0⟩, hdie.counterpart⟩
  obtain ⟨root', next, twin, hrun, hsame, hmirrors, -⟩ :=
    snapshot_restored hreachable hother hknows hdie.portable hcounterpart 0
  exact ⟨workspace, other, hreachable, hother, hknows, hdie.portable, hcounterpart, root', next, twin,
    hrun, hsame, hmirrors⟩

end Workspace

end Attire
