import Attire.Proofs.Identifiers
import Attire.Proofs.Machine.Sound
import Attire.Snapshot.Capture

namespace Attire

/-! A snapshot shows every entity that can be reached, and nothing else. -/

/-- The value that mentions an entity of a kind. -/
def EntityKind.value : EntityKind → Ref → Value
  | object => .object
  | array => .array
  | map => .map
  | set => .set

namespace EntityKind

variable {kind : EntityKind} {outline : Outline} {ref : Ref}

@[simp] theorem ref?_value : (kind.value ref).ref? = some ref := by
  cases kind <;> rfl

@[simp] theorem refs_value : Capture.refs (kind.value ref) = [ref] := by
  cases kind <;> rfl

theorem names_value :
    outline.Names (kind.value ref) ↔ outline.cells[ref.address]? = some (ref.id, kind) := by
  cases kind <;> rfl

end EntityKind

theorem Outline.Names.eq_value {outline : Outline} {value : Value} (h : outline.Names value) :
    ∃ kind ref, value = EntityKind.value kind ref := by
  cases value with
  | object ref => exact ⟨.object, ref, rfl⟩
  | array ref => exact ⟨.array, ref, rfl⟩
  | map ref => exact ⟨.map, ref, rfl⟩
  | set ref => exact ⟨.set, ref, rfl⟩
  | _ => cases h

namespace Outline

/-- There is an entity in that place, with that identifier. -/
def Has (outline : Outline) (ref : Ref) : Prop :=
  ∃ kind, outline.cells[ref.address]? = some (ref.id, kind)

theorem Names.has {outline : Outline} {value : Value} {ref : Ref} (h : outline.Names value)
    (href : value.ref? = some ref) : outline.Has ref := by
  cases value with
  | object | array | map | set =>
    cases href
    exact ⟨_, h⟩
  | _ => cases href

theorem Has.eq_of_address {outline : Outline} {a b : Ref} (h : outline.Has a) (h' : outline.Has b)
    (haddress : a.address = b.address) : a = b := by
  obtain ⟨kind, hcell⟩ := h
  obtain ⟨kind', hcell'⟩ := h'
  rw [haddress, hcell'] at hcell
  obtain ⟨address, id⟩ := a
  obtain ⟨address', id'⟩ := b
  cases haddress
  cases hcell
  rfl

end Outline

namespace Capture

variable {machine : Machine} {outline : Outline} {starts stack : List Ref} {ref inner : Ref}

/-! Known values mention entities that there are. -/

section

variable {cls : ClassId → Prop}

mutual

theorem has_of_mem_refs : ∀ {value : Value}, value.Within outline.Names cls → ref ∈ refs value →
    outline.Has ref
  | .null, _, hmem | .num _, _, hmem | .bool _, _, hmem | .text _, _, hmem => nomatch hmem
  | .object _, h, hmem | .array _, h, hmem | .map _, h, hmem | .set _, h, hmem =>
    List.mem_singleton.mp hmem ▸ ⟨_, h⟩
  | .tuple items, h, hmem => has_of_mem_refsOfAll (h : Value.AllWithin _ _ items) hmem
  | .suggestion _ steps, h, hmem => has_of_mem_refsOfSteps (h : Step.AllWithin _ _ steps) hmem

theorem has_of_mem_refsOfAll : ∀ {values : List Value}, Value.AllWithin outline.Names cls values →
    ref ∈ refsOfAll values → outline.Has ref
  | [], _, hmem => nomatch hmem
  | _ :: _, h, hmem =>
    (List.mem_append.mp hmem).elim (has_of_mem_refs h.1) (has_of_mem_refsOfAll h.2)

theorem has_of_mem_refsOfStep : ∀ {step : Step}, step.Within outline.Names cls →
    ref ∈ refsOfStep step → outline.Has ref
  | .extend _ _, h, hmem | .retract _ _, h, hmem => has_of_mem_refs h.2 hmem
  | .call _ _ _ _, h, hmem => by
    rcases List.mem_append.mp hmem with hmem | hmem
    · rcases List.mem_append.mp hmem with hmem | hmem
      · exact has_of_mem_refs h.1 hmem
      · exact has_of_mem_refs h.2.1 hmem
    · exact has_of_mem_refsOfAll h.2.2 hmem

theorem has_of_mem_refsOfSteps : ∀ {steps : List Step}, Step.AllWithin outline.Names cls steps →
    ref ∈ refsOfSteps steps → outline.Has ref
  | [], _, hmem => nomatch hmem
  | _ :: _, h, hmem =>
    (List.mem_append.mp hmem).elim (has_of_mem_refsOfStep h.1) (has_of_mem_refsOfSteps h.2)

end

end

theorem mem_refsOfAll {values : List Value} :
    ref ∈ refsOfAll values ↔ ∃ value ∈ values, ref ∈ refs value := by
  induction values with
  | nil => simp [refsOfAll]
  | cons value rest ih =>
    rw [refsOfAll, List.mem_append, ih]
    simp

theorem mem_contents {entity : Entity} {value : Value} (h : value ∈ contents machine entity) :
    value ∈ entity.contents := by
  cases entity with
  | object object =>
    obtain ⟨field, hfield, rfl⟩ := List.mem_map.mp h
    obtain ⟨view, -, hview⟩ := List.mem_filterMap.mp hfield
    obtain ⟨value, hvalue, rfl⟩ := Option.map_eq_some_iff.mp hview
    exact Table.mem_values_of_get? hvalue
  | array | map | set => exact h

/-- The entities that can be reached from those of a list. -/
inductive Reaches (machine : Machine) (starts : List Ref) : Ref → Prop
  | start {ref : Ref} : ref ∈ starts → Reaches machine starts ref
  | inside {ref inner : Ref} :
      Reaches machine starts ref → inner ∈ entityRefs machine ref → Reaches machine starts inner

namespace Reaches

theorem mono {starts starts' : List Ref} (hsub : ∀ ref ∈ starts, Reaches machine starts' ref)
    (h : Reaches machine starts ref) : Reaches machine starts' ref := by
  induction h with
  | start hmem => exact hsub _ hmem
  | inside _ hinner ih => exact ih.inside hinner

theorem has {classes : ClassRegistry} (hsound : machine.Sound classes outline)
    (hstarts : ∀ ref ∈ starts, outline.Has ref) (h : Reaches machine starts ref) :
    outline.Has ref := by
  induction h with
  | start hmem => exact hstarts _ hmem
  | @inside ref inner _ hinner _ =>
    unfold entityRefs at hinner
    split at hinner
    case h_1 entity hentity =>
      have hknown := (hsound.stored_sound hentity).contents
      exact has_of_mem_refsOfAll
        (Value.allWithin_iff.mpr fun value hmem => hknown value (mem_contents hmem)) hinner
    case h_2 => cases hinner

end Reaches

/-! How far walks go. -/

/-- The number of mentions in a cell whose identifier was not met. -/
def freshMentions (machine : Machine) (seen : List Id) (cell : Cell) : Nat :=
  if cell.id ∈ seen then 0 else (refsOfAll (contents machine cell.entity)).length

def unmet (machine : Machine) (seen : List Id) (cells : List Cell) : Nat :=
  (cells.map (freshMentions machine seen)).sum

theorem unmet_nil (machine : Machine) :
    unmet machine [] machine.heap.cells.toList = mentions machine := by
  have hall : ∀ (cells : List Cell) (count : Nat), count + unmet machine [] cells =
      cells.foldl
        (fun count cell => count + (refsOfAll (contents machine cell.entity)).length) count := by
    intro cells
    induction cells with
    | nil => exact fun _ => rfl
    | cons cell rest ih =>
      intro count
      rw [List.foldl_cons, ← ih, unmet, List.map_cons, List.sum_cons, freshMentions,
        if_neg List.not_mem_nil, ← Nat.add_assoc, unmet]
  rw [mentions, ← Array.foldl_toList, ← hall, Nat.zero_add]

theorem freshMentions_cons_le (machine : Machine) (id : Id) (seen : List Id) (cell : Cell) :
    freshMentions machine (id :: seen) cell ≤ freshMentions machine seen cell := by
  unfold freshMentions
  by_cases hmem : cell.id ∈ seen
  · rw [if_pos (List.mem_cons_of_mem _ hmem)]
    exact Nat.zero_le _
  · rw [if_neg hmem]
    split <;> omega

theorem unmet_cons_le (machine : Machine) (id : Id) (seen : List Id) (cells : List Cell) :
    unmet machine (id :: seen) cells ≤ unmet machine seen cells := by
  induction cells with
  | nil => exact le_refl _
  | cons cell rest ih => exact Nat.add_le_add (freshMentions_cons_le machine id seen cell) ih

/-- What a new entity mentions is not counted again. -/
theorem unmet_of_mem (machine : Machine) {seen : List Id} {cell : Cell} (hfresh : cell.id ∉ seen) :
    ∀ {cells : List Cell}, cell ∈ cells →
      (refsOfAll (contents machine cell.entity)).length + unmet machine (cell.id :: seen) cells ≤
        unmet machine seen cells
  | other :: rest, hmem => by
    simp only [unmet, List.map_cons, List.sum_cons]
    rcases List.mem_cons.mp hmem with rfl | hmem
    · have hrest := unmet_cons_le machine cell.id seen rest
      have hfirst : freshMentions machine (cell.id :: seen) cell = 0 :=
        if_pos (List.mem_cons_self ..)
      have hcell : freshMentions machine seen cell =
          (refsOfAll (contents machine cell.entity)).length := if_neg hfresh
      unfold unmet at hrest
      omega
    · have hrest := unmet_of_mem machine hfresh hmem
      have hfirst := freshMentions_cons_le machine cell.id seen other
      unfold unmet at hrest
      omega

/-- The entities that a walk enters. -/
structure Walked (machine : Machine) (stack : List Ref) (seen : List Id) (visited : List Ref) :
    Prop where
  distinct : (visited.map Ref.id).Nodup
  fresh : ∀ ref ∈ visited, ref.id ∉ seen
  reached : ∀ ref ∈ visited, Reaches machine stack ref
  starts : ∀ ref ∈ stack, ref.id ∈ seen ∨ ref.id ∈ visited.map Ref.id
  closed : ∀ ref ∈ visited, ∀ inner ∈ entityRefs machine ref,
    inner.id ∈ seen ∨ inner.id ∈ visited.map Ref.id

theorem Walked.skip {seen : List Id} {visited : List Ref} (hseen : ref.id ∈ seen)
    (h : Walked machine stack seen visited) : Walked machine (ref :: stack) seen visited where
  distinct := h.distinct
  fresh := h.fresh
  reached other hmem := (h.reached other hmem).mono fun _ hstart =>
    .start (List.mem_cons_of_mem _ hstart)
  starts other hmem := by
    rcases List.mem_cons.mp hmem with rfl | hmem
    · exact .inl hseen
    · exact h.starts other hmem
  closed := h.closed

theorem Walked.enter {seen : List Id} {visited : List Ref} (hseen : ref.id ∉ seen)
    (h : Walked machine (entityRefs machine ref ++ stack) (ref.id :: seen) visited) :
    Walked machine (ref :: stack) seen (ref :: visited) := by
  have hmet : ∀ {id : Id}, id ∈ ref.id :: seen ∨ id ∈ visited.map Ref.id →
      id ∈ seen ∨ id ∈ (ref :: visited).map Ref.id := by
    intro id hmem
    rw [List.map_cons, List.mem_cons]
    rcases hmem with hmem | hmem
    · exact (List.mem_cons.mp hmem).elim (fun heq => .inr (.inl heq)) .inl
    · exact .inr (.inr hmem)
  constructor
  case distinct =>
    refine List.nodup_cons.mpr ⟨fun hmem => ?_, h.distinct⟩
    obtain ⟨other, hother, heq⟩ := List.mem_map.mp hmem
    exact h.fresh other hother (heq ▸ List.mem_cons_self ..)
  case fresh =>
    intro other hmem
    rcases List.mem_cons.mp hmem with rfl | hmem
    · exact hseen
    · exact fun hold => h.fresh other hmem (List.mem_cons_of_mem _ hold)
  case reached =>
    intro other hmem
    rcases List.mem_cons.mp hmem with rfl | hmem
    · exact .start (List.mem_cons_self ..)
    · refine (h.reached other hmem).mono fun start hstart => ?_
      rcases List.mem_append.mp hstart with hstart | hstart
      · exact .inside (.start (List.mem_cons_self ..)) hstart
      · exact .start (List.mem_cons_of_mem _ hstart)
  case starts =>
    intro other hmem
    rcases List.mem_cons.mp hmem with rfl | hmem
    · exact .inr (List.mem_cons_self ..)
    · exact hmet (h.starts other (List.mem_append_right _ hmem))
  case closed =>
    intro other hmem inner hinner
    rcases List.mem_cons.mp hmem with rfl | hmem
    · exact hmet (h.starts inner (List.mem_append_left _ hinner))
    · exact hmet (h.closed other hmem inner hinner)

/-- A walk that takes as many steps as it needs. -/
inductive Walks (machine : Machine) : List Ref → List Id → Snapshot → Snapshot → Prop
  | done {seen : List Id} {snapshot : Snapshot} : Walks machine [] seen snapshot snapshot
  | skip {ref : Ref} {stack : List Ref} {seen : List Id} {snapshot last : Snapshot} :
      ref.id ∈ seen → Walks machine stack seen snapshot last →
      Walks machine (ref :: stack) seen snapshot last
  | enter {ref : Ref} {stack : List Ref} {seen : List Id} {snapshot last : Snapshot} :
      ref.id ∉ seen →
      Walks machine (entityRefs machine ref ++ stack) (ref.id :: seen) (record machine ref snapshot)
        last →
      Walks machine (ref :: stack) seen snapshot last

theorem Walks.unique {seen : List Id} {snapshot last last' : Snapshot}
    (h : Walks machine stack seen snapshot last) (h' : Walks machine stack seen snapshot last') :
    last = last' := by
  induction h with
  | done =>
    cases h'
    rfl
  | skip hseen _ ih =>
    cases h' with
    | skip _ h' => exact ih h'
    | enter hfresh _ => exact absurd hseen hfresh
  | enter hfresh _ ih =>
    cases h' with
    | skip hseen _ => exact absurd hseen hfresh
    | enter _ h' => exact ih h'

theorem Walks.visits {seen : List Id} {snapshot last : Snapshot}
    (h : Walks machine stack seen snapshot last) :
    ∃ visited, Walked machine stack seen visited ∧
      last = visited.foldl (fun snapshot ref => record machine ref snapshot) snapshot := by
  induction h with
  | done => exact ⟨[], ⟨.nil, nofun, nofun, nofun, nofun⟩, rfl⟩
  | skip hseen _ ih =>
    obtain ⟨visited, hwalked, heq⟩ := ih
    exact ⟨visited, hwalked.skip hseen, heq⟩
  | @enter ref _ _ _ _ hfresh _ ih =>
    obtain ⟨visited, hwalked, heq⟩ := ih
    exact ⟨ref :: visited, hwalked.enter hfresh, heq⟩

/-- Enough steps are as good as any number: what an entity mentions goes on the stack once, and is no
longer counted among what is unmet. -/
theorem walks_walk :
    ∀ (steps : Nat) (stack : List Ref) (seen : List Id) (snapshot : Snapshot),
      (∀ ref, Reaches machine stack ref → machine.heap.outline.Has ref) →
      stack.length + unmet machine seen machine.heap.cells.toList < steps →
      Walks machine stack seen snapshot (walk machine steps stack seen snapshot)
  | _ + 1, [], _, _, _, _ => .done
  | steps + 1, ref :: stack, seen, snapshot, hhas, hsteps => by
    rw [List.length_cons] at hsteps
    unfold walk
    by_cases hseen : ref.id ∈ seen
    · rw [if_pos hseen]
      refine .skip hseen (walks_walk steps stack seen snapshot (fun other hreach => ?_) (by omega))
      exact hhas other (hreach.mono fun _ hstart => .start (List.mem_cons_of_mem _ hstart))
    · obtain ⟨kind, hplace⟩ := hhas ref (.start (List.mem_cons_self ..))
      simp only [Heap.outline, List.getElem?_map, Array.getElem?_toList] at hplace
      obtain ⟨cell, hcell, hcellId⟩ := Option.map_eq_some_iff.mp hplace
      have hid : cell.id = ref.id := congrArg Prod.fst hcellId
      have hrefs : entityRefs machine ref = refsOfAll (contents machine cell.entity) := by
        rw [entityRefs, Heap.entity?, hcell]
        rfl
      have hbound := unmet_of_mem machine (hid ▸ hseen)
        (Array.mem_toList_iff.mpr (Array.mem_of_getElem? hcell))
      rw [← hrefs, hid] at hbound
      rw [if_neg hseen]
      refine .enter hseen (walks_walk steps _ _ _ (fun other hreach => ?_)
        (by rw [List.length_append]; omega))
      refine hhas other (hreach.mono fun start hstart => ?_)
      rcases List.mem_append.mp hstart with hinner | hstart
      · exact .inside (.start (List.mem_cons_self ..)) hinner
      · exact .start (List.mem_cons_of_mem _ hstart)

/-- The references of a list have identifiers that tell them apart. -/
def Distinct (machine : Machine) (starts : List Ref) : Prop :=
  ∀ a b, Reaches machine starts a → Reaches machine starts b → a.id = b.id → a = b

theorem Walked.mem_iff {visited : List Ref} (h : Walked machine starts [] visited)
    (hdistinct : Distinct machine starts) : ref ∈ visited ↔ Reaches machine starts ref := by
  have hmet : ∀ {ref : Ref}, Reaches machine starts ref →
      ref.id ∈ [] ∨ ref.id ∈ visited.map Ref.id → ref ∈ visited := by
    intro ref hreach hmem
    obtain ⟨other, hother, hid⟩ := List.mem_map.mp (hmem.resolve_left List.not_mem_nil)
    exact hdistinct other ref (h.reached other hother) hreach hid ▸ hother
  refine ⟨h.reached ref, fun hreach => ?_⟩
  induction hreach with
  | start hstart => exact hmet (.start hstart) (h.starts _ hstart)
  | inside hreach hinner ih => exact hmet (hreach.inside hinner) (h.closed _ ih _ hinner)

/-! What a snapshot shows of an entity. -/

inductive Shown
  | object (object : SnapObject)
  | array (items : List SnapValue)
  | map (entries : List (SnapValue × SnapValue))
  | set (items : List SnapValue)

def shown (machine : Machine) : Entity → Shown
  | .object object => .object {
      classes := object.worn.map machine.classes.qualifiedNameOf
      fields := Ordered.ofList ((shownFields machine object).map fun (key, item) =>
        (key, value machine.classes item)) }
  | .array items => .array (values machine.classes items.toList)
  | .map entries => .map (entries.values.map fun (key, item) =>
      (value machine.classes key, value machine.classes item))
  | .set entries => .set (values machine.classes entries.values)

def shown? (machine : Machine) (ref : Ref) : Option Shown :=
  (machine.heap.entity? ref).map (shown machine)

namespace Shown

def object? : Shown → Option SnapObject
  | object shown => some shown
  | _ => none

def array? : Shown → Option (List SnapValue)
  | array items => some items
  | _ => none

def map? : Shown → Option (List (SnapValue × SnapValue))
  | map entries => some entries
  | _ => none

def set? : Shown → Option (List SnapValue)
  | set items => some items
  | _ => none

end Shown

/-- What is shown of some entities, by their identifiers. -/
def table {α : Type} (machine : Machine) (part : Shown → Option α) (visited : List Ref) :
    List (String × α) :=
  visited.filterMap fun ref =>
    ((shown? machine ref).bind part).map fun entry => (ref.id.text, entry)

section

variable {α : Type} {part : Shown → Option α} {visited : List Ref}

theorem table_concat : table machine part (visited ++ [ref]) = table machine part visited ++
    (((shown? machine ref).bind part).map fun entry => (ref.id.text, entry)).toList := by
  rw [table, List.filterMap_append, List.filterMap_cons]
  cases (shown? machine ref).bind part <;> rfl

theorem mem_table {entry : String × α} : entry ∈ table machine part visited ↔
    ∃ ref ∈ visited, (shown? machine ref).bind part = some entry.2 ∧ ref.id.text = entry.1 := by
  obtain ⟨key, content⟩ := entry
  simp only [table, List.mem_filterMap, Option.map_eq_some_iff, Prod.mk.injEq]
  constructor
  · rintro ⟨ref, hmem, _, hshown, hkey, rfl⟩
    exact ⟨ref, hmem, hshown, hkey⟩
  · rintro ⟨ref, hmem, hshown, hkey⟩
    exact ⟨ref, hmem, content, hshown, hkey, rfl⟩

theorem nodup_table (h : (visited.map Ref.id).Nodup) :
    ((table machine part visited).map Prod.fst).Nodup := by
  induction visited using List.reverseRecOn with
  | nil => exact .nil
  | append_singleton visited ref ih =>
    rw [List.map_append, List.nodup_append] at h
    obtain ⟨hvisited, -, hfresh⟩ := h
    rw [table_concat, List.map_append, List.nodup_append]
    refine ⟨ih hvisited, ?_, fun key hkey other hother heq => ?_⟩
    · cases (shown? machine ref).bind part <;> simp
    · obtain ⟨entry, hentry, rfl⟩ := List.mem_map.mp hkey
      obtain ⟨met, hmet, -, htext⟩ := mem_table.mp hentry
      have hother : other = ref.id.text := by
        cases hpart : (shown? machine ref).bind part <;> simp_all
      have hid : met.id = ref.id := Id.text_injective (htext.trans (heq.trans hother))
      exact hfresh _ (List.mem_map.mpr ⟨met, hmet, rfl⟩) _ (by simp) hid

end

theorem foldl_record (visited : List Ref) (root : SnapValue) :
    visited.foldl (fun snapshot ref => record machine ref snapshot) { root } = {
      root
      objects := Ordered.ofList (table machine Shown.object? visited)
      arrays := Ordered.ofList (table machine Shown.array? visited)
      maps := Ordered.ofList (table machine Shown.map? visited)
      sets := Ordered.ofList (table machine Shown.set? visited) } := by
  induction visited using List.reverseRecOn with
  | nil => rfl
  | append_singleton visited ref ih =>
    rw [List.foldl_append, ih, List.foldl_cons, List.foldl_nil]
    simp only [table_concat]
    cases hentity : machine.heap.entity? ref with
    | none => simp [record, shown?, hentity]
    | some entity =>
      cases entity <;> simp [record, shown?, hentity, shown, Shown.object?, Shown.array?,
        Shown.map?, Shown.set?, Ordered.ofList_concat]

end Capture

open Capture

/-- Taking a snapshot ends, and nothing cuts it short. -/
theorem Machine.walks_capture (machine : Machine) {root : Value}
    (hhas : ∀ ref, Reaches machine (refs root) ref → machine.heap.outline.Has ref) :
    Walks machine (refs root) [] { root := value machine.classes root } (machine.capture root) :=
  walks_walk ((refs root).length + mentions machine + 1) (refs root) [] _ hhas
    (by rw [unmet_nil]; omega)

theorem Machine.capture_eq (machine : Machine) {root : Value}
    (hhas : ∀ ref, Reaches machine (refs root) ref → machine.heap.outline.Has ref)
    (hdistinct : Distinct machine (refs root)) :
    ∃ visited, (visited.map Ref.id).Nodup ∧ (∀ ref, ref ∈ visited ↔ Reaches machine (refs root) ref) ∧
      machine.capture root = {
        root := value machine.classes root
        objects := Ordered.ofList (table machine Shown.object? visited)
        arrays := Ordered.ofList (table machine Shown.array? visited)
        maps := Ordered.ofList (table machine Shown.map? visited)
        sets := Ordered.ofList (table machine Shown.set? visited) } := by
  obtain ⟨visited, hwalked, heq⟩ := (machine.walks_capture hhas).visits
  exact ⟨visited, hwalked.distinct, fun ref => hwalked.mem_iff hdistinct, by rw [heq, foldl_record]⟩

end Attire
