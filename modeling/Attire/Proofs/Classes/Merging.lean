import Attire.Proofs.Classes.Composition

namespace Attire

/-! What the members that several parents have under one name become. -/

namespace Table

variable {κ : Type u} {α : Type v} [DecidableEq κ] {table : Table κ α} {key : κ} {value : α}

/-- Everything that the table has under a key. -/
def under (key : κ) (table : Table κ α) : List α :=
  table.entries.filterMap fun entry => if entry.1 = key then some entry.2 else none

theorem mem_under : value ∈ table.under key ↔ (key, value) ∈ table.entries := by
  simp [under, List.mem_filterMap]

end Table

theorem MethodSig.sameContract_equivalence :
    Equivalence fun a b : MethodSig => (a.sameContract b : Prop) := by
  simp only [sameContract_iff]
  exact ⟨fun _ => rfl, Eq.symm, Eq.trans⟩

theorem FieldInfo.same_iff {a b : FieldInfo} :
    a.same b ↔ a.key = b.key ∧ a.name = b.name ∧ a.ty.anonymous = b.ty.anonymous := by
  simp [same, Ty.same_iff, and_assoc]

theorem FieldInfo.same_equivalence : Equivalence fun a b : FieldInfo => (a.same b : Prop) := by
  simp only [same_iff]
  refine ⟨fun _ => ⟨rfl, rfl, rfl⟩, ?_, ?_⟩
  · rintro a b ⟨hkey, hname, hty⟩
    exact ⟨hkey.symm, hname.symm, hty.symm⟩
  · rintro a b c ⟨hkey, hname, hty⟩ ⟨hkey', hname', hty'⟩
    exact ⟨hkey.trans hkey', hname.trans hname', hty.trans hty'⟩

namespace ClassRegistry

section

variable {α β : Type} (registry : ClassRegistry) (parents : List ClassId)

/-- Some parent has the entry under the name in its table. -/
def Offers (table : ClassDef → Table String (Entry α)) (name : String) (entry : Entry α) : Prop :=
  ∃ parent ∈ parents, ∃ found, registry.get? parent = some found ∧
    (name, entry) ∈ (table found).entries

/-- Some parent has the member, every parent that has the name in this table has a member there that
agrees, and no parent has the name in the other table. -/
structure Agreed (agree : α → α → Bool) (table : ClassDef → Table String (Entry α))
    (other : ClassDef → Table String (Entry β)) (name : String) (value : α) : Prop where
  offered : registry.Offers parents table name (.member value)
  alike (entry : Entry α) : registry.Offers parents table name entry →
    ∃ member, entry = .member member ∧ agree value member
  alone (entry : Entry β) : ¬registry.Offers parents other name entry

/-- The names are those of the parents; what they agree on is usable, and the rest are conflicts. -/
structure Merged (agree : α → α → Bool) (table : ClassDef → Table String (Entry α))
    (other : ClassDef → Table String (Entry β)) (merged : Table String (Entry α)) : Prop where
  absent {name : String} :
    merged.get? name = none ↔ ∀ entry, ¬registry.Offers parents table name entry
  usable {name : String} : (∃ value, merged.get? name = some (.member value)) ↔
    ∃ value, registry.Agreed parents agree table other name value
  agreed {name : String} {value : α} : merged.get? name = some (.member value) →
    registry.Agreed parents agree table other name value
  conflict {name : String} : merged.get? name = some .conflict ↔
    (∃ entry, registry.Offers parents table name entry) ∧
      ∀ value, ¬registry.Agreed parents agree table other name value

end

end ClassRegistry

namespace Composition

variable {α β : Type} {agree : α → α → Bool} {table incoming : Table String (Entry α)}
variable {name : String} {value : α} {known : Option (Entry α)} {entry first : Entry α}
variable {entries : List (Entry α)}

/-! Merging works on every name by itself, and comes down to a fold over what is under it. -/

/-- What is known of a name, with one more entry for it. -/
def gather (agree : α → α → Bool) : Option (Entry α) → Entry α → Option (Entry α)
  | none, incoming => some incoming
  | some existing, incoming => some (existing.meet agree incoming)

theorem get?_mergeEntry {other : String} :
    (mergeEntry agree table (other, entry)).get? name =
      if other = name then gather agree (table.get? name) entry else table.get? name := by
  unfold mergeEntry
  by_cases hname : other = name
  · subst hname
    cases table.get? other <;> simp [gather]
  · have hne : name ≠ other := fun heq => hname heq.symm
    cases table.get? other <;> simp [hname, Table.get?_insert_of_ne _ _ hne]

theorem get?_mergeTable : (mergeTable agree table incoming).get? name =
    (incoming.under name).foldl (gather agree) (table.get? name) := by
  obtain ⟨entries⟩ := incoming
  unfold mergeTable Table.under
  dsimp only
  induction entries generalizing table with
  | nil => rfl
  | cons entry rest ih =>
    rw [List.foldl_cons, ih, get?_mergeEntry]
    by_cases hname : entry.1 = name <;> simp [hname]

theorem get?_mergeAll {tables : List (Table String (Entry α))} :
    (tables.foldl (mergeTable agree) table).get? name =
      (tables.flatMap (Table.under name)).foldl (gather agree) (table.get? name) := by
  induction tables generalizing table with
  | nil => rfl
  | cons incoming rest ih =>
    rw [List.foldl_cons, ih, get?_mergeTable, List.flatMap_cons, List.foldl_append]

theorem get?_conflicts {names : List String} :
    (names.foldl (fun table name => table.insert name .conflict) table).get? name =
      if name ∈ names then some .conflict else table.get? name := by
  induction names generalizing table with
  | nil => rfl
  | cons other rest ih =>
    rw [List.foldl_cons, ih, Table.get?_insert]
    by_cases hrest : name ∈ rest <;> by_cases hother : name = other <;> simp [hrest, hother]

theorem gather_isSome : (entries.foldl (gather agree) known).isSome ↔
    known.isSome ∨ ∃ entry, entry ∈ entries := by
  induction entries generalizing known with
  | nil => simp
  | cons entry rest ih =>
    rw [List.foldl_cons, ih]
    cases known <;> simp [gather]

theorem mem_clashing {composition : Composition} :
    name ∈ composition.methods.keys.filter composition.fields.contains ↔
      (composition.methods.get? name).isSome ∧ (composition.fields.get? name).isSome := by
  rw [List.mem_filter, ← Table.contains_iff]
  rfl

theorem meet_eq_member : first.meet agree entry = .member value ↔
    first = .member value ∧ ∃ other, entry = .member other ∧ agree value other := by
  cases first with
  | conflict => simp [Entry.meet]
  | member old =>
    cases entry with
    | conflict => simp [Entry.meet]
    | member new =>
      by_cases hagree : agree old new
      · simp only [Entry.meet, hagree, if_true, Entry.member.injEq, exists_eq_left']
        exact ⟨fun heq => ⟨heq, heq ▸ hagree⟩, And.left⟩
      · simp only [Entry.meet, hagree, Bool.false_eq_true, if_false, Entry.member.injEq,
          exists_eq_left', reduceCtorEq, false_iff]
        rintro ⟨rfl, h⟩
        exact hagree h

/-- The first entry stays if all others agree with it. -/
theorem gather_eq_member : entries.foldl (gather agree) (some first) = some (.member value) ↔
    first = .member value ∧
      ∀ entry ∈ entries, ∃ other, entry = .member other ∧ agree value other := by
  induction entries generalizing first with
  | nil => simp
  | cons entry rest ih =>
    rw [List.foldl_cons, gather, ih, meet_eq_member, List.forall_mem_cons, and_assoc]

theorem inheritFrom_tables (found : List ClassDef) (composition : Composition) :
    (found.foldl inheritFrom composition).methods =
        (found.map ClassDef.methods).foldl (mergeTable MethodSig.sameContract) composition.methods ∧
      (found.foldl inheritFrom composition).fields =
        (found.map ClassDef.fields).foldl (mergeTable FieldInfo.same) composition.fields := by
  induction found generalizing composition with
  | nil => exact ⟨rfl, rfl⟩
  | cons parent rest ih => exact ih (composition.inheritFrom parent)

section

variable {registry : ClassRegistry} {parents : List ClassId}
variable {own : ClassDef → Table String (Entry α)} {other : ClassDef → Table String (Entry β)}

/-- The entries that the parents have under the name, in the order of the parents. -/
def offers (registry : ClassRegistry) (parents : List ClassId)
    (own : ClassDef → Table String (Entry α)) (name : String) : List (Entry α) :=
  ((parents.filterMap registry.get?).map own).flatMap (Table.under name)

theorem mem_offers : entry ∈ offers registry parents own name ↔
    registry.Offers parents own name entry := by
  simp only [offers, ClassRegistry.Offers, List.mem_flatMap, List.mem_map, List.mem_filterMap,
    Table.mem_under]
  constructor
  · rintro ⟨-, ⟨found, ⟨parent, hparent, hfound⟩, rfl⟩, hmem⟩
    exact ⟨parent, hparent, found, hfound, hmem⟩
  · rintro ⟨parent, hparent, found, hfound, hmem⟩
    exact ⟨own found, ⟨found, ⟨parent, hparent, hfound⟩, rfl⟩, hmem⟩

/-- What the entries come to is what the parents agree on. -/
theorem agreed_of_gather (hagree : Equivalence fun a b => (agree a b : Prop))
    (halone : ∀ entry, ¬registry.Offers parents other name entry)
    (h : (offers registry parents own name).foldl (gather agree) none = some (.member value)) :
    registry.Agreed parents agree own other name value := by
  cases hoffers : offers registry parents own name with
  | nil => simp [hoffers] at h
  | cons first rest =>
    rw [hoffers, List.foldl_cons, gather, gather_eq_member] at h
    obtain ⟨rfl, hrest⟩ := h
    refine ⟨mem_offers.mp (hoffers ▸ List.mem_cons_self), fun entry hentry => ?_, halone⟩
    rcases List.mem_cons.mp (hoffers ▸ mem_offers.mpr hentry) with rfl | hmem
    · exact ⟨value, rfl, hagree.refl value⟩
    · exact hrest entry hmem

/-- What the parents agree on, the first of them that has the name has. -/
theorem gather_of_agreed (hagree : Equivalence fun a b => (agree a b : Prop))
    (h : registry.Agreed parents agree own other name value) :
    ∃ member, (offers registry parents own name).foldl (gather agree) none =
      some (.member member) := by
  have hoffered := mem_offers.mpr h.offered
  have halike := fun entry hmem => h.alike entry (mem_offers.mp hmem)
  cases hoffers : offers registry parents own name with
  | nil => simp [hoffers] at hoffered
  | cons first rest =>
    rw [hoffers] at halike
    obtain ⟨member, rfl, hmember⟩ := halike first List.mem_cons_self
    refine ⟨member, gather_eq_member.mpr ⟨rfl, fun entry hentry => ?_⟩⟩
    obtain ⟨other, rfl, hother⟩ := halike entry (List.mem_cons_of_mem _ hentry)
    exact ⟨other, rfl, hagree.trans (hagree.symm hmember) hother⟩

theorem gather_offers_isSome (agree : α → α → Bool) :
    ((offers registry parents own name).foldl (gather agree) none).isSome ↔
      ∃ entry, registry.Offers parents own name entry := by
  simp only [gather_isSome, Option.isSome_none, Bool.false_eq_true, false_or, mem_offers]

/-- A table in which every name has what its entries come to, or a conflict if the name is in
the other table as well, is a merged one. -/
theorem merged_of_gather {mine merged : Table String (Entry α)} {theirs : Table String (Entry β)}
    (hagree : Equivalence fun a b => (agree a b : Prop))
    (hmine : ∀ name, mine.get? name =
      (offers registry parents own name).foldl (gather agree) none)
    (htheirs : ∀ name, (theirs.get? name).isSome ↔
      ∃ entry, registry.Offers parents other name entry)
    (hclash : ∀ name, (mine.get? name).isSome → (theirs.get? name).isSome →
      merged.get? name = some .conflict)
    (hkeep : ∀ name, ¬((mine.get? name).isSome ∧ (theirs.get? name).isSome) →
      merged.get? name = mine.get? name) :
    registry.Merged parents agree own other merged := by
  have hoffers : ∀ name, (merged.get? name).isSome ↔
      ∃ entry, registry.Offers parents own name entry := by
    intro name
    by_cases hboth : (mine.get? name).isSome ∧ (theirs.get? name).isSome
    · rw [hclash name hboth.1 hboth.2, ← gather_offers_isSome agree, ← hmine]
      simp [hboth.1]
    · rw [hkeep name hboth, hmine, gather_offers_isSome]
  have hagreed : ∀ name value, merged.get? name = some (.member value) →
      registry.Agreed parents agree own other name value := by
    intro name value h
    by_cases hboth : (mine.get? name).isSome ∧ (theirs.get? name).isSome
    · rw [hclash name hboth.1 hboth.2] at h
      cases h
    · rw [hkeep name hboth] at h
      refine agreed_of_gather hagree (fun entry hentry => ?_) (hmine name ▸ h)
      exact hboth ⟨by rw [h]; rfl, (htheirs name).mpr ⟨entry, hentry⟩⟩
  have husable : ∀ name value, registry.Agreed parents agree own other name value →
      ∃ member, merged.get? name = some (.member member) := by
    intro name value h
    have hboth : ¬((mine.get? name).isSome ∧ (theirs.get? name).isSome) := by
      rintro ⟨-, htheir⟩
      obtain ⟨entry, hentry⟩ := (htheirs name).mp htheir
      exact h.alone entry hentry
    rw [hkeep name hboth, hmine]
    exact gather_of_agreed hagree h
  constructor
  case absent =>
    intro name
    rw [← not_exists, ← hoffers, Option.not_isSome_iff_eq_none]
  case usable =>
    intro name
    exact ⟨Exists.imp (hagreed name), fun h => h.elim (husable name)⟩
  case agreed => exact hagreed _ _
  case conflict =>
    intro name
    rw [← hoffers]
    constructor
    · intro h
      refine ⟨by rw [h]; rfl, fun value hvalue => ?_⟩
      obtain ⟨member, hmember⟩ := husable name value hvalue
      rw [h] at hmember
      cases hmember
    · rintro ⟨hsome, hnone⟩
      obtain ⟨entry, hentry⟩ := Option.isSome_iff_exists.mp hsome
      cases entry with
      | conflict => exact hentry
      | member value => exact absurd (hagreed name value hentry) (hnone value)

end

/-- The merged tables are those that the parents' tables specify. -/
theorem ofParents_merged (registry : ClassRegistry) (parents : List ClassId) :
    registry.Merged parents MethodSig.sameContract ClassDef.methods ClassDef.fields
        (ofParents registry parents).methods ∧
      registry.Merged parents FieldInfo.same ClassDef.fields ClassDef.methods
        (ofParents registry parents).fields := by
  obtain ⟨hmethods, hfields⟩ :=
    inheritFrom_tables (parents.filterMap registry.get?) {}
  have hgetMethod : ∀ name, (((parents.filterMap registry.get?).foldl inheritFrom {}).methods.get?
      name) = (offers registry parents ClassDef.methods name).foldl
        (gather MethodSig.sameContract) none := by
    intro name
    rw [hmethods, get?_mergeAll]
    rfl
  have hgetField : ∀ name, (((parents.filterMap registry.get?).foldl inheritFrom {}).fields.get?
      name) = (offers registry parents ClassDef.fields name).foldl
        (gather FieldInfo.same) none := by
    intro name
    rw [hfields, get?_mergeAll]
    rfl
  constructor
  · apply merged_of_gather MethodSig.sameContract_equivalence hgetMethod
    · intro name
      rw [hgetField, gather_offers_isSome]
    · intro name hmethod hfield
      exact get?_conflicts.trans (if_pos (mem_clashing.mpr ⟨hmethod, hfield⟩))
    · intro name hboth
      exact get?_conflicts.trans (if_neg fun hmem => hboth (mem_clashing.mp hmem))
  · apply merged_of_gather FieldInfo.same_equivalence hgetField
    · intro name
      rw [hgetMethod, gather_offers_isSome]
    · intro name hfield hmethod
      exact get?_conflicts.trans (if_pos (mem_clashing.mpr ⟨hmethod, hfield⟩))
    · intro name hboth
      exact get?_conflicts.trans (if_neg fun hmem => hboth (mem_clashing.mp hmem).symm)

end Composition

end Attire
