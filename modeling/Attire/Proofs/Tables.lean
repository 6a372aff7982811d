import Attire.Ordered
import Attire.Table
import Mathlib.Data.List.Nodup

namespace Attire

/-! What tables hold after changes. -/

namespace Table

variable {κ : Type u} {α : Type v} [DecidableEq κ]
variable {table lower upper : Table κ α} {key other : κ} {value : α} {keep : κ → Bool}

omit [DecidableEq κ] in
theorem mem_restrict {entry : κ × α} :
    entry ∈ (table.restrict keep).entries ↔ entry ∈ table.entries ∧ keep entry.1 :=
  List.mem_filter

theorem mem_of_find :
    ∀ {entries : List (κ × α)}, find key entries = some value → (key, value) ∈ entries
  | (other, old) :: rest, h => by
    by_cases heq : other = key
    · simp_all [find]
    · exact List.mem_cons_of_mem _ (mem_of_find (by simpa [find, heq] using h))

theorem mem_of_get? (h : table.get? key = some value) : (key, value) ∈ table.entries :=
  mem_of_find h

theorem mem_values_of_get? (h : table.get? key = some value) : value ∈ table.values :=
  List.mem_map.mpr ⟨(key, value), mem_of_get? h, rfl⟩

theorem find_isSome :
    ∀ {entries : List (κ × α)}, (find key entries).isSome ↔ key ∈ entries.map Prod.fst
  | [] => by simp [find]
  | (other, old) :: rest => by
    by_cases heq : other = key
    · simp [find, heq]
    · have hne : key ≠ other := fun h => heq h.symm
      simp [find, heq, hne, find_isSome]

theorem contains_iff : table.contains key ↔ key ∈ table.keys := find_isSome

theorem contains_of_get? (h : table.get? key = some value) : table.contains key := by
  rw [contains, h]
  rfl

theorem get?_insert :
    (table.insert key value).get? other = if other = key then some value else table.get? other := by
  split
  case isTrue heq => rw [heq, get?_insert_self]
  case isFalse hne => exact get?_insert_of_ne table value hne

theorem mem_put {entry : κ × α} :
    ∀ {entries : List (κ × α)}, entry ∈ put key value entries →
      entry = (key, value) ∨ entry ∈ entries
  | [], h => by simpa [put] using h
  | (other, old) :: rest, h => by
    by_cases heq : other = key
    · rcases (by simpa [put, heq] using h : entry = (key, value) ∨ entry ∈ rest) with h | h
      · exact .inl h
      · exact .inr (List.mem_cons_of_mem _ h)
    · rcases (by simpa [put, heq] using h :
          entry = (other, old) ∨ entry ∈ put key value rest) with rfl | h
      · exact .inr (by simp)
      · exact (mem_put h).imp id (List.mem_cons_of_mem _)

theorem mem_insert {entry : κ × α} (h : entry ∈ (table.insert key value).entries) :
    entry = (key, value) ∨ entry ∈ table.entries :=
  mem_put h

theorem find_filter {entries : List (κ × α)} :
    find key (entries.filter fun entry => keep entry.1) =
      if keep key then find key entries else none := by
  induction entries with
  | nil => simp [find]
  | cons entry rest ih =>
    obtain ⟨other, old⟩ := entry
    by_cases hkeep : keep other
    · by_cases heq : other = key
      · simp [find, heq, heq ▸ hkeep]
      · simp [hkeep, find, heq, ih]
    · have hne : keep key → other ≠ key := fun h heq => hkeep (heq ▸ h)
      by_cases hkey : keep key
      · simp [hkeep, find, hne hkey, hkey, ih]
      · simp [hkeep, hkey, ih]

theorem get?_restrict :
    (table.restrict keep).get? key = if keep key then table.get? key else none :=
  find_filter

theorem get?_erase :
    (table.erase key).get? other = if other = key then none else table.get? other := by
  unfold erase
  rw [get?_restrict]
  by_cases h : other = key <;> simp [h]

theorem put_of_notMem : ∀ {entries : List (κ × α)}, key ∉ entries.map Prod.fst →
    put key value entries = entries ++ [(key, value)]
  | [], _ => rfl
  | (other, old) :: rest, hfresh => by
    obtain ⟨hne, hrest⟩ := not_or.mp (mt List.mem_cons.mpr hfresh)
    rw [put, if_neg (Ne.symm hne), put_of_notMem hrest, List.cons_append]

/-- A new key comes last. -/
theorem insert_of_notMem (h : key ∉ table.keys) :
    table.insert key value = ⟨table.entries ++ [(key, value)]⟩ :=
  congrArg Table.mk (put_of_notMem h)

theorem mapValues_insert {β : Type w} {change : α → β} :
    (table.insert key value).mapValues change = (table.mapValues change).insert key (change value) := by
  obtain ⟨entries⟩ := table
  simp only [mapValues, insert]
  congr 1
  induction entries with
  | nil => rfl
  | cons entry rest ih =>
    by_cases h : entry.1 = key <;> simp [put, h, ih]

theorem get?_mapValues {β : Type w} {change : α → β} :
    (table.mapValues change).get? key = (table.get? key).map change := by
  obtain ⟨entries⟩ := table
  simp only [mapValues, get?]
  induction entries with
  | nil => rfl
  | cons entry rest ih =>
    by_cases h : entry.1 = key <;> simp [find, h, ih]

/-! Tables built entry by entry. -/

theorem mem_insertAll {entry : κ × α} {entries : List (κ × α)}
    (h : entry ∈ (entries.foldl (fun table entry => table.insert entry.1 entry.2) table).entries) :
    entry ∈ entries ∨ entry ∈ table.entries := by
  induction entries generalizing table with
  | nil => exact .inr h
  | cons first rest ih =>
    rcases ih h with h | h
    · exact .inl (List.mem_cons_of_mem _ h)
    · rcases mem_insert h with rfl | h
      · exact .inl (by simp)
      · exact .inr h

theorem contains_insertAll :
    ∀ {entries : List (κ × α)} {table : Table κ α},
      (entries.foldl (fun table entry => table.insert entry.1 entry.2) table).contains key ↔
        key ∈ entries.map Prod.fst ∨ table.contains key
  | [], table => by simp
  | (other, value) :: rest, table => by
    rw [List.foldl_cons, contains_insertAll]
    simp only [contains, get?_insert]
    by_cases h : key = other <;> simp [h]

theorem get?_insertAll :
    ∀ {entries : List (κ × α)} {table : Table κ α}, (entries.map Prod.fst).Nodup →
      (key, value) ∈ entries →
      (entries.foldl (fun table entry => table.insert entry.1 entry.2) table).get? key = some value
  | (other, content) :: rest, table, hnodup, hmem => by
    rw [List.foldl_cons]
    obtain ⟨hfresh, hnodup⟩ := List.nodup_cons.mp hnodup
    rcases List.mem_cons.mp hmem with heq | hmem
    · cases heq
      rw [get?_insertAll_of_not_mem hfresh, get?_insert_self]
    · exact get?_insertAll hnodup hmem
where
  get?_insertAll_of_not_mem {other : κ} :
      ∀ {entries : List (κ × α)} {table : Table κ α}, other ∉ entries.map Prod.fst →
        (entries.foldl (fun table entry => table.insert entry.1 entry.2) table).get? other =
          table.get? other
    | [], _, _ => rfl
    | (third, content) :: rest, table, hfresh => by
      rw [List.foldl_cons, get?_insertAll_of_not_mem fun h => hfresh (List.mem_cons_of_mem _ h),
        get?_insert_of_ne]
      rintro rfl
      exact hfresh (by simp)

theorem nodup_put : ∀ {entries : List (κ × α)}, (entries.map Prod.fst).Nodup →
    ((put key value entries).map Prod.fst).Nodup
  | [], _ => by simp [put]
  | (other, old) :: rest, h => by
    obtain ⟨hfresh, hrest⟩ := List.nodup_cons.mp h
    by_cases heq : other = key
    · subst heq
      simpa [put] using h
    · simp only [put, if_neg heq, List.map_cons, List.nodup_cons]
      refine ⟨fun hmem => ?_, nodup_put hrest⟩
      obtain ⟨entry, hentry, rfl⟩ := List.mem_map.mp hmem
      rcases mem_put hentry with rfl | hentry
      · exact heq rfl
      · exact hfresh (List.mem_map.mpr ⟨entry, hentry, rfl⟩)

theorem mem_keys_insertIfNew :
    other ∈ (table.insertIfNew key value).keys ↔ other = key ∨ other ∈ table.keys := by
  rw [← contains_iff, ← contains_iff]
  unfold insertIfNew
  split
  case isTrue hold =>
    refine ⟨.inr, ?_⟩
    rintro (rfl | hother)
    · exact hold
    · exact hother
  case isFalse =>
    rw [Table.contains, get?_insert]
    split
    case isTrue heq => simp [heq]
    case isFalse hne => simp [hne, Table.contains]

theorem nodup_insert (h : table.keys.Nodup) : (table.insert key value).keys.Nodup := nodup_put h

theorem get?_overlay (h : upper.keys.Nodup) :
    (lower.overlay upper).get? key = (upper.get? key).or (lower.get? key) := by
  cases hupper : upper.get? key with
  | some value => exact get?_insertAll h (mem_of_get? hupper)
  | none =>
    refine get?_insertAll.get?_insertAll_of_not_mem fun hmem => ?_
    have hcontains := contains_iff.mpr hmem
    rw [contains, hupper] at hcontains
    cases hcontains

theorem mem_overlay {entry : κ × α} (h : entry ∈ (lower.overlay upper).entries) :
    entry ∈ upper.entries ∨ entry ∈ lower.entries :=
  mem_insertAll h

theorem contains_overlay :
    (lower.overlay upper).contains key ↔ upper.contains key ∨ lower.contains key := by
  unfold overlay
  rw [contains_insertAll]
  exact or_congr_left contains_iff.symm

end Table

namespace Ordered

variable {κ : Type u} {α : Type v} [Ord κ]

theorem mem_values_of_find {key : κ} {value : α} :
    ∀ {entries : List (κ × α)}, find key entries = some value → value ∈ entries.map Prod.snd
  | (other, old) :: rest, h => by
    simp only [find] at h
    cases horder : compare key other with
    | lt => simp [horder] at h
    | eq => simp_all
    | gt => exact List.mem_cons_of_mem _ (mem_values_of_find (by simpa [horder] using h))

theorem mem_values_of_get? {table : Ordered κ α} {key : κ} {value : α}
    (h : table.get? key = some value) : value ∈ table.values :=
  mem_values_of_find h

theorem mem_put {key : κ} {value : α} {entry : κ × α} :
    ∀ {entries : List (κ × α)}, entry ∈ put key value entries →
      entry = (key, value) ∨ entry ∈ entries
  | [], h => by simpa [put] using h
  | (other, old) :: rest, h => by
    simp only [put] at h
    cases horder : compare key other with
    | lt => simpa [horder] using h
    | eq =>
      rcases (by simpa [horder] using h : entry = (key, value) ∨ entry ∈ rest) with h | h
      · exact .inl h
      · exact .inr (List.mem_cons_of_mem _ h)
    | gt =>
      rcases (by simpa [horder] using h :
          entry = (other, old) ∨ entry ∈ put key value rest) with rfl | h
      · exact .inr (by simp)
      · exact (mem_put h).imp id (List.mem_cons_of_mem _)

theorem mem_insert {table : Ordered κ α} {key : κ} {value : α} {entry : κ × α}
    (h : entry ∈ (table.insert key value).entries) :
    entry = (key, value) ∨ entry ∈ table.entries :=
  mem_put h

theorem drop_sublist {key : κ} :
    ∀ (entries : List (κ × α)), (drop key entries).Sublist entries
  | [] => .slnil
  | (other, old) :: rest => by
    simp only [drop]
    split
    · exact .refl _
    · exact .cons _ (.refl _)
    · exact .cons_cons _ (drop_sublist rest)

theorem mem_ofList {entry : κ × α} {entries : List (κ × α)}
    (h : entry ∈ (ofList entries).entries) : entry ∈ entries := by
  have hall : ∀ (entries : List (κ × α)) (table : Ordered κ α),
      entry ∈ (entries.foldl (fun table entry => table.insert entry.1 entry.2) table).entries →
        entry ∈ entries ∨ entry ∈ table.entries := by
    intro entries
    induction entries with
    | nil => exact fun _ h => .inr h
    | cons first rest ih =>
      intro table h
      rcases ih _ h with h | h
      · exact .inl (List.mem_cons_of_mem _ h)
      · rcases mem_insert h with rfl | h
        · exact .inl (by simp)
        · exact .inr h
  exact (hall entries ∅ h).resolve_right (by rintro ⟨⟩)

/-- The keys increase strictly. -/
def Sorted (table : Ordered κ α) : Prop :=
  table.entries.Pairwise fun a b => compare a.1 b.1 = .lt

theorem Sorted.erase {table : Ordered κ α} {key : κ} (h : table.Sorted) :
    (table.erase key).Sorted :=
  List.Pairwise.sublist (drop_sublist _) h

section

variable [Std.TransOrd κ] {table : Ordered κ α} {key : κ} {value : α}

theorem put_pairwise : ∀ {entries : List (κ × α)},
    entries.Pairwise (fun a b => compare a.1 b.1 = .lt) →
      (put key value entries).Pairwise fun a b => compare a.1 b.1 = .lt
  | [], _ => by simp [put]
  | (other, old) :: rest, h => by
    obtain ⟨hfirst, hrest⟩ := List.pairwise_cons.mp h
    simp only [put]
    cases horder : compare key other with
    | lt =>
      refine List.pairwise_cons.mpr ⟨fun entry hmem => ?_, h⟩
      rcases List.mem_cons.mp hmem with rfl | hmem
      · exact horder
      · exact Std.TransCmp.lt_trans horder (hfirst entry hmem)
    | eq =>
      refine List.pairwise_cons.mpr ⟨fun entry hmem => ?_, hrest⟩
      exact Std.TransCmp.lt_of_eq_of_lt horder (hfirst entry hmem)
    | gt =>
      refine List.pairwise_cons.mpr ⟨fun entry hmem => ?_, put_pairwise hrest⟩
      rcases mem_put hmem with rfl | hmem
      · exact Std.OrientedCmp.lt_of_gt horder
      · exact hfirst entry hmem

theorem Sorted.insert (h : table.Sorted) : (table.insert key value).Sorted := put_pairwise h

theorem ofList_sorted (entries : List (κ × α)) : (ofList entries).Sorted := by
  have hall : ∀ (entries : List (κ × α)) (table : Ordered κ α), table.Sorted →
      (entries.foldl (fun table entry => table.insert entry.1 entry.2) table).Sorted := by
    intro entries
    induction entries with
    | nil => exact fun _ h => h
    | cons first rest ih => exact fun table h => ih _ h.insert
  exact hall entries ∅ List.Pairwise.nil

omit [Std.TransOrd κ] in
theorem Sorted.of_keys {β : Type w} {other : Ordered κ β} (h : table.Sorted)
    (hkeys : other.entries.map Prod.fst = table.entries.map Prod.fst) : other.Sorted := by
  have hpairwise : (table.entries.map Prod.fst).Pairwise fun a b => compare a b = .lt :=
    List.pairwise_map.mpr h
  exact List.pairwise_map.mp (hkeys ▸ hpairwise)

theorem compare_ne_lt (key : κ) : compare key key ≠ .lt := by
  have hself : compare key key = .eq := Std.ReflCmp.compare_self
  rw [hself]
  nofun

theorem Sorted.nodup_keys (h : table.Sorted) : (table.entries.map Prod.fst).Nodup := by
  refine List.pairwise_map.mpr (h.imp fun {a b} hlt heq => ?_)
  rw [heq] at hlt
  exact compare_ne_lt _ hlt

theorem Sorted.ext {other : Ordered κ α} (h : table.Sorted) (h' : other.Sorted)
    (hentries : ∀ entry, entry ∈ table.entries ↔ entry ∈ other.entries) : table = other := by
  obtain ⟨entries⟩ := table
  obtain ⟨others⟩ := other
  have hnodup : entries.Nodup := List.Nodup.of_map _ h.nodup_keys
  have hnodup' : others.Nodup := List.Nodup.of_map _ h'.nodup_keys
  have hperm : entries.Perm others := (List.perm_ext_iff_of_nodup hnodup hnodup').mpr hentries
  refine congrArg Ordered.mk (hperm.eq_of_pairwise ?_ h h')
  intro a b _ _ hlt hgt
  exact absurd (Std.TransCmp.lt_trans hlt hgt) (compare_ne_lt a.1)

end

/-! Tables made of lists of entries. -/

section

variable [Std.LawfulEqOrd κ] {table : Ordered κ α} {key : κ} {value : α} {entry : κ × α}

omit [Std.LawfulEqOrd κ] in
theorem ofList_concat (entries : List (κ × α)) (entry : κ × α) :
    ofList (entries ++ [entry]) = (ofList entries).insert entry.1 entry.2 := by
  rw [ofList, List.foldl_append]
  rfl

omit [Std.LawfulEqOrd κ] in
theorem mem_put_self : ∀ (entries : List (κ × α)), (key, value) ∈ put key value entries
  | [] => by simp [put]
  | (other, old) :: rest => by
    simp only [put]
    cases compare key other with
    | lt | eq => exact List.mem_cons_self ..
    | gt => exact List.mem_cons_of_mem _ (mem_put_self rest)

theorem mem_put_of_ne (hne : entry.1 ≠ key) :
    ∀ {entries : List (κ × α)}, entry ∈ entries → entry ∈ put key value entries
  | (other, old) :: rest, h => by
    simp only [put]
    cases horder : compare key other with
    | lt => exact List.mem_cons_of_mem _ h
    | eq =>
      rcases List.mem_cons.mp h with rfl | h
      · exact absurd (Std.LawfulEqOrd.eq_of_compare horder).symm hne
      · exact List.mem_cons_of_mem _ h
    | gt =>
      rcases List.mem_cons.mp h with rfl | h
      · exact List.mem_cons_self ..
      · exact List.mem_cons_of_mem _ (mem_put_of_ne hne h)

theorem mem_ofList_iff {entries : List (κ × α)} (hkeys : (entries.map Prod.fst).Nodup) :
    entry ∈ (ofList entries).entries ↔ entry ∈ entries := by
  have hkept : ∀ (entries : List (κ × α)) (table : Ordered κ α), entry.1 ∉ entries.map Prod.fst →
      entry ∈ table.entries →
      entry ∈ (entries.foldl (fun table entry => table.insert entry.1 entry.2) table).entries := by
    intro entries
    induction entries with
    | nil => exact fun _ _ h => h
    | cons first rest ih =>
      intro table hfresh h
      obtain ⟨hne, hfresh⟩ := List.ne_and_not_mem_of_not_mem_cons hfresh
      exact ih _ hfresh (mem_put_of_ne hne h)
  have hall : ∀ (entries : List (κ × α)) (table : Ordered κ α), (entries.map Prod.fst).Nodup →
      entry ∈ entries →
      entry ∈ (entries.foldl (fun table entry => table.insert entry.1 entry.2) table).entries := by
    intro entries
    induction entries with
    | nil => exact fun _ _ h => nomatch h
    | cons first rest ih =>
      intro table hnodup h
      obtain ⟨hfresh, hnodup⟩ := List.nodup_cons.mp hnodup
      rcases List.mem_cons.mp h with rfl | h
      · exact hkept rest _ hfresh (mem_put_self _)
      · exact ih _ hnodup h
  exact ⟨mem_ofList, hall entries ∅ hkeys⟩

variable [Std.TransOrd κ]

theorem ofList_congr {entries others : List (κ × α)} (hkeys : (entries.map Prod.fst).Nodup)
    (hkeys' : (others.map Prod.fst).Nodup) (h : ∀ entry, entry ∈ entries ↔ entry ∈ others) :
    ofList entries = ofList others :=
  (ofList_sorted entries).ext (ofList_sorted others) fun entry => by
    rw [mem_ofList_iff hkeys, mem_ofList_iff hkeys', h]

theorem Sorted.ofList_entries (h : table.Sorted) : ofList table.entries = table :=
  (ofList_sorted _).ext h fun _ => mem_ofList_iff h.nodup_keys

theorem Sorted.values_ofList {β : Type w} {entries : List (κ × β)} (h : table.Sorted)
    (hkeys : entries.map Prod.fst = table.entries.map Prod.fst) :
    (ofList entries).values = entries.map Prod.snd := by
  have hsorted : Sorted ⟨entries⟩ := h.of_keys hkeys
  rw [hsorted.ofList_entries]
  rfl

/-! Lookups. -/

omit [Std.TransOrd κ] in
theorem mem_of_find : ∀ {entries : List (κ × α)}, find key entries = some value →
    (key, value) ∈ entries
  | (other, old) :: rest, h => by
    simp only [find] at h
    cases horder : compare key other with
    | lt => simp [horder] at h
    | eq =>
      obtain rfl := Std.LawfulEqOrd.eq_of_compare horder
      simp_all
    | gt => exact List.mem_cons_of_mem _ (mem_of_find (by simpa [horder] using h))

theorem Sorted.get?_eq_some_iff (h : table.Sorted) :
    table.get? key = some value ↔ (key, value) ∈ table.entries := by
  have hfound : ∀ {entries : List (κ × α)}, entries.Pairwise (fun a b => compare a.1 b.1 = .lt) →
      (key, value) ∈ entries → find key entries = some value := by
    intro entries
    induction entries with
    | nil => exact fun _ h => nomatch h
    | cons first rest ih =>
      intro hsorted hmem
      obtain ⟨hfirst, hrest⟩ := List.pairwise_cons.mp hsorted
      rcases List.mem_cons.mp hmem with rfl | hmem
      · simp [find]
      · rw [find, Std.OrientedCmp.gt_of_lt (hfirst _ hmem)]
        exact ih hrest hmem
  exact ⟨mem_of_find, hfound h⟩

/-- Sorted tables that answer alike are the same. -/
theorem Sorted.ext_get? {other : Ordered κ α} (h : table.Sorted) (h' : other.Sorted)
    (hget : ∀ key, table.get? key = other.get? key) : table = other :=
  h.ext h' fun entry => by
    rw [← h.get?_eq_some_iff, ← h'.get?_eq_some_iff, hget]

theorem mem_drop : ∀ {entries : List (κ × α)},
    entries.Pairwise (fun a b => compare a.1 b.1 = .lt) →
      (entry ∈ drop key entries ↔ entry ∈ entries ∧ entry.1 ≠ key)
  | [], _ => by simp [drop]
  | (other, old) :: rest, h => by
    obtain ⟨hfirst, hrest⟩ := List.pairwise_cons.mp h
    have hlater : ∀ entry ∈ rest, compare key other ≠ .gt → entry.1 ≠ key := by
      rintro entry hmem hle rfl
      exact hle (Std.OrientedCmp.gt_of_lt (hfirst entry hmem))
    simp only [drop]
    cases horder : compare key other with
    | lt =>
      have hne : other ≠ key := by
        rintro rfl
        exact compare_ne_lt other horder
      refine ⟨fun hmem => ⟨hmem, ?_⟩, And.left⟩
      rcases List.mem_cons.mp hmem with rfl | hmem
      · exact hne
      · exact hlater entry hmem (by rw [horder]; nofun)
    | eq =>
      obtain rfl := Std.LawfulEqOrd.eq_of_compare horder
      refine ⟨fun hmem => ⟨List.mem_cons_of_mem _ hmem, hlater entry hmem (by rw [horder]; nofun)⟩,
        fun ⟨hmem, hne⟩ => ?_⟩
      rcases List.mem_cons.mp hmem with rfl | hmem
      · exact absurd rfl hne
      · exact hmem
    | gt =>
      have hne : other ≠ key := by
        rintro rfl
        simp at horder
      rw [List.mem_cons, List.mem_cons, mem_drop hrest]
      constructor
      · rintro (rfl | ⟨hmem, hkey⟩)
        · exact ⟨.inl rfl, hne⟩
        · exact ⟨.inr hmem, hkey⟩
      · rintro ⟨rfl | hmem, hkey⟩
        · exact .inl rfl
        · exact .inr ⟨hmem, hkey⟩

theorem Sorted.get?_insert [DecidableEq κ] {other : κ} (h : table.Sorted) :
    (table.insert key value).get? other =
      if other = key then some value else table.get? other := by
  split
  case isTrue heq =>
    subst heq
    exact h.insert.get?_eq_some_iff.mpr (mem_put_self _)
  case isFalse hne =>
    ext found
    rw [h.insert.get?_eq_some_iff, h.get?_eq_some_iff]
    refine ⟨fun hmem => (mem_insert hmem).resolve_left ?_, mem_put_of_ne hne⟩
    rintro ⟨⟩
    exact hne rfl

theorem Sorted.get?_erase [DecidableEq κ] {other : κ} (h : table.Sorted) :
    (table.erase key).get? other = if other = key then none else table.get? other := by
  ext found
  rw [h.erase.get?_eq_some_iff]
  change (other, found) ∈ drop key table.entries ↔ _
  rw [mem_drop h]
  split
  case isTrue heq => simp [heq]
  case isFalse hne => simp [hne, h.get?_eq_some_iff]

end

end Ordered

end Attire
