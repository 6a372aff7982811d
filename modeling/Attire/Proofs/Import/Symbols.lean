import Attire.Proofs.Import.Names

namespace Attire

/-! A symbol table does not depend on the order of the definitions that went into it.  Wildcards
bring the names of a module in the order of its table, so this order must not show. -/

/-- One name as a declaration or a wildcard enters it. -/
structure Definition where
  name : String
  target : Target
  origin : Origin
  span : Span
deriving DecidableEq, Repr

/-- The definitions of a name by the module itself, or by its wildcards. -/
def Definition.Of (origin : Origin) (name : String) (definition : Definition) : Prop :=
  definition.name = name ∧ definition.origin = origin

namespace SymbolTable

variable {definitions order : List Definition} {definition : Definition} {name : String}
variable {symbols next : SymbolTable} {entry : Option SymbolEntry}

/-- No name has two local definitions.  The order of the definitions does not count. -/
def Singular (definitions : List Definition) : Prop :=
  ((definitions.filter fun definition => definition.origin = .local).map Definition.name).Nodup

instance : Decidable (Singular definitions) :=
  inferInstanceAs (Decidable (List.Nodup _))

/-- What a table says on a name of which some definitions are given. -/
structure Renders (symbols : SymbolTable) (definitions : List Definition) (name : String) :
    Prop where
  /-- The local definition of the name wins. -/
  owned : ∀ definition ∈ definitions, definition.Of .local name →
    symbols.lookup name = some ⟨definition.target, .local, definition.span⟩
  /-- Wildcards that agree give their common target. -/
  agreed : (∀ definition ∈ definitions, ¬definition.Of .local name) →
    ∀ target, (∀ definition ∈ definitions, definition.Of .nonlocal name →
        definition.target = target) →
      (∃ definition ∈ definitions, definition.Of .nonlocal name) →
        ∃ span, symbols.lookup name = some ⟨target, .nonlocal, span⟩
  /-- The name is ambiguous if wildcards alone bring it and two of them disagree, and only then. -/
  torn : symbols.isAmbiguous name ↔
    (∀ definition ∈ definitions, ¬definition.Of .local name) ∧
    ∃ one ∈ definitions, ∃ other ∈ definitions, one.Of .nonlocal name ∧
      other.Of .nonlocal name ∧ one.target ≠ other.target
  /-- An ambiguous name stands for nothing. -/
  silent : symbols.isAmbiguous name → symbols.lookup name = none
  /-- No other name stands for anything. -/
  absent : (∀ definition ∈ definitions, definition.name ≠ name) → symbols.lookup name = none

/-- Enters a definition, which fails for the second local one of a name. -/
def define? (symbols : SymbolTable) (definition : Definition) : Option SymbolTable :=
  match definition.origin with
  | .local => symbols.defineLocal? definition.name definition.target definition.span
  | .nonlocal => some (symbols.defineNonlocal definition.name definition.target definition.span)

/-- The table after an attempt to enter a definition, which a refusal leaves as it is. -/
def attempt (symbols : SymbolTable) (definition : Definition) : SymbolTable :=
  (symbols.define? definition).getD symbols

/-- The entry of a name as the definitions so far determine it: each form of an entry comes with
what it says about them. -/
inductive Stands (definitions : List Definition) (name : String) : Option SymbolEntry → Prop
  | absent (hnone : ∀ definition ∈ definitions, definition.name ≠ name) :
      Stands definitions name none
  | owned {definition : Definition} (hmem : definition ∈ definitions)
      (hof : definition.Of .local name) :
      Stands definitions name (some (.bound ⟨definition.target, .local, definition.span⟩))
  | agreed {target : Target} {span : Span}
      (hforeign : ∀ definition ∈ definitions, ¬definition.Of .local name)
      (hsome : ∃ definition ∈ definitions, definition.Of .nonlocal name)
      (hagree : ∀ definition ∈ definitions, definition.Of .nonlocal name →
        definition.target = target) :
      Stands definitions name (some (.bound ⟨target, .nonlocal, span⟩))
  | torn (hforeign : ∀ definition ∈ definitions, ¬definition.Of .local name)
      (hdiffer : ∃ one ∈ definitions, ∃ other ∈ definitions, one.Of .nonlocal name ∧
        other.Of .nonlocal name ∧ one.target ≠ other.target) :
      Stands definitions name (some .ambiguous)

theorem Singular.perm (h : Singular definitions) (hperm : order.Perm definitions) :
    Singular order :=
  ((hperm.filter _).map _).nodup_iff.mpr h

theorem Singular.eq_of_local (h : Singular definitions) {one other : Definition}
    (hone : one ∈ definitions) (hother : other ∈ definitions) (hof : one.Of .local name)
    (hof' : other.Of .local name) : one = other :=
  List.inj_on_of_nodup_map h (by simp [hone, hof.2]) (by simp [hother, hof'.2])
    (hof.1.trans hof'.1.symm)

/-- A local definition has a name that no earlier one has. -/
theorem Singular.fresh {earlier later : List Definition}
    (h : Singular (earlier ++ definition :: later)) (hlocal : definition.origin = .local) :
    ∀ other ∈ earlier, ¬other.Of .local definition.name := by
  intro other hother hof
  rw [Singular, List.filter_append, List.map_append, List.nodup_append] at h
  exact h.2.2 _ (List.mem_map_of_mem (by simp [hother, hof.2])) _
    (List.mem_map_of_mem (by simp [hlocal])) hof.1

/-! ### One definition -/

/-- A definition of another name says nothing on this one. -/
theorem Stands.concat_of_ne (h : Stands definitions name entry) (hne : definition.name ≠ name) :
    Stands (definitions ++ [definition]) name entry := by
  have hother {origin : Origin} : ¬definition.Of origin name := fun hof => hne hof.1
  cases h with
  | absent hnone => exact .absent (by simpa [or_imp, forall_and] using ⟨hnone, hne⟩)
  | owned hmem hof => exact .owned (by simp [hmem]) hof
  | agreed hforeign hsome hagree =>
    exact .agreed (by simpa [or_imp, forall_and, hother] using hforeign)
      (by simpa [or_and_right, exists_or, hother] using hsome)
      (by simpa [or_imp, forall_and, hother] using hagree)
  | torn hforeign hdiffer =>
    obtain ⟨one, hone, other, hmem, hdiffer⟩ := hdiffer
    exact .torn (by simpa [or_imp, forall_and, hother] using hforeign)
      ⟨one, by simp [hone], other, by simp [hmem], hdiffer⟩

/-- What a wildcard does to the entry of a name that it brings. -/
theorem Stands.bring (h : Stands definitions name entry) (hof : definition.Of .nonlocal name) :
    Stands (definitions ++ [definition]) name
      (some (SymbolTable.bring definition.target definition.span entry)) := by
  have hnot : ¬definition.Of .local name := fun hof' => by cases hof.2.symm.trans hof'.2
  cases h with
  | absent hnone =>
    have hnone' {origin : Origin} (other : Definition) (hmem : other ∈ definitions) :
        ¬other.Of origin name := fun hof => hnone other hmem hof.1
    refine .agreed ?_ ⟨definition, by simp, hof⟩ ?_
    · simpa [or_imp, forall_and, hnot] using hnone'
    · intro other hmem hother
      rcases List.mem_append.mp hmem with hmem | hmem
      · exact absurd hother (hnone' other hmem)
      · rw [List.mem_singleton.mp hmem]
  | owned hmem hof' =>
    rw [SymbolTable.bring, if_pos (.inl rfl)]
    exact .owned (by simp [hmem]) hof'
  | @agreed target span hforeign hsome hagree =>
    have hforeign' : ∀ other ∈ definitions ++ [definition], ¬other.Of .local name := by
      simpa [or_imp, forall_and, hnot] using hforeign
    obtain ⟨first, hfirst, hfirstOf⟩ := hsome
    rw [SymbolTable.bring]
    split
    case isTrue heq =>
      have heq : target = definition.target := heq.resolve_left (by simp)
      exact .agreed hforeign' ⟨first, by simp [hfirst], hfirstOf⟩
        (by simpa [or_imp, forall_and, heq] using heq ▸ hagree)
    case isFalse hne =>
      refine .torn hforeign' ⟨first, by simp [hfirst], definition, by simp, hfirstOf, hof, ?_⟩
      rw [hagree first hfirst hfirstOf]
      exact fun heq => hne (.inr heq)
  | torn hforeign hdiffer =>
    obtain ⟨one, hone, other, hother, hdiffer⟩ := hdiffer
    exact .torn (by simpa [or_imp, forall_and, hnot] using hforeign)
      ⟨one, by simp [hone], other, by simp [hother], hdiffer⟩

theorem Stands.owns_iff (h : Stands definitions name (symbols.entries.get? name)) :
    symbols.Owns name ↔ ∃ definition ∈ definitions, definition.Of .local name := by
  unfold Owns lookup
  generalize symbols.entries.get? name = entry at h
  cases h with
  | absent hnone => simpa [Definition.Of] using fun other hmem heq => absurd heq (hnone other hmem)
  | owned hmem hof => simpa using ⟨_, hmem, hof⟩
  | agreed hforeign _ _ | torn hforeign _ => simpa using hforeign

theorem defineLocal?_eq_none {target : Target} {span : Span} :
    symbols.defineLocal? name target span = none ↔ symbols.Owns name := by
  unfold defineLocal? Owns
  split
  case h_1 heq => simp [heq]
  case h_2 hforeign =>
    simp only [reduceCtorEq, false_iff]
    rintro ⟨⟨target, _, span⟩, hlookup, rfl⟩
    exact hforeign target span hlookup

/-- A definition is refused if it is the second local one of its name, and only then. -/
theorem define?_eq_none :
    symbols.define? definition = none ↔
      definition.origin = .local ∧ symbols.Owns definition.name := by
  unfold define?
  split
  case h_1 horigin => simp [horigin, defineLocal?_eq_none]
  case h_2 horigin => simp [horigin]

theorem get?_define_of_ne (hdefine : symbols.define? definition = some next)
    (hne : name ≠ definition.name) : next.entries.get? name = symbols.entries.get? name := by
  unfold define? at hdefine
  split at hdefine
  case h_1 =>
    unfold defineLocal? at hdefine
    split at hdefine
    case h_1 => cases hdefine
    case h_2 =>
      cases hdefine
      exact Table.get?_insert_of_ne _ _ hne
  case h_2 =>
    cases hdefine
    exact Table.get?_insert_of_ne _ _ hne

/-- **Step lemma.** An accepted definition is one more of those that the table stands for. -/
theorem stands_define (h : ∀ name, Stands definitions name (symbols.entries.get? name))
    (hdefine : symbols.define? definition = some next) (name : String) :
    Stands (definitions ++ [definition]) name (next.entries.get? name) := by
  by_cases hname : definition.name = name
  case neg =>
    rw [get?_define_of_ne hdefine (Ne.symm hname)]
    exact (h name).concat_of_ne hname
  case pos =>
    subst hname
    cases horigin : definition.origin with
    | nonlocal =>
      simp only [define?, horigin, Option.some.injEq] at hdefine
      subst hdefine
      simpa [defineNonlocal] using (h definition.name).bring ⟨rfl, horigin⟩
    | «local» =>
      simp only [define?, horigin, defineLocal?] at hdefine
      split at hdefine
      case h_1 => cases hdefine
      case h_2 =>
        cases hdefine
        have howned : Stands (definitions ++ [definition]) definition.name
            (some (.bound ⟨definition.target, .local, definition.span⟩)) :=
          .owned (by simp) ⟨rfl, horigin⟩
        simpa using howned

/-! ### All definitions -/

/-- **Run lemma.** Definitions of which no two are local and of one name are all accepted. -/
theorem stands_foldlM {earlier later : List Definition}
    (h : ∀ name, Stands earlier name (symbols.entries.get? name))
    (hsingular : Singular (earlier ++ later)) :
    ∃ next, later.foldlM define? symbols = some next ∧
      ∀ name, Stands (earlier ++ later) name (next.entries.get? name) := by
  induction later generalizing earlier symbols with
  | nil => exact ⟨symbols, rfl, by simpa using h⟩
  | cons definition later ih =>
    have haccepted : symbols.define? definition ≠ none := fun hnone => by
      obtain ⟨hlocal, howns⟩ := define?_eq_none.mp hnone
      obtain ⟨other, hother, hof⟩ := (h _).owns_iff.mp howns
      exact hsingular.fresh hlocal other hother hof
    obtain ⟨next, hdefine⟩ := Option.ne_none_iff_exists'.mp haccepted
    have hrest : earlier ++ definition :: later = earlier ++ [definition] ++ later := by simp
    rw [hrest] at hsingular ⊢
    obtain ⟨last, hlast, hstands⟩ := ih (stands_define h hdefine) hsingular
    exact ⟨last, by simp [List.foldlM_cons, hdefine, hlast], hstands⟩

/-- An entry that stands for all definitions is read as they demand. -/
theorem Stands.renders (hsingular : Singular definitions)
    (h : Stands definitions name (symbols.entries.get? name)) : symbols.Renders definitions name := by
  have hlookup (binding : Binding) : symbols.lookup name = some binding ↔
      symbols.entries.get? name = some (.bound binding) := lookup_eq_some
  have htorn : symbols.isAmbiguous name ↔ symbols.entries.get? name = some .ambiguous := by
    simp [isAmbiguous]
  generalize symbols.entries.get? name = entry at h hlookup htorn
  have hsilent (hunbound : ∀ binding, entry ≠ some (.bound binding)) : symbols.lookup name = none :=
    Option.eq_none_iff_forall_ne_some.mpr fun binding hsome =>
      hunbound binding ((hlookup binding).mp hsome)
  cases h with
  | absent hnone =>
    have hnone' {origin : Origin} (other : Definition) (hmem : other ∈ definitions) :
        ¬other.Of origin name := fun hof => hnone other hmem hof.1
    constructor
    case owned => exact fun other hmem hof => absurd hof (hnone' other hmem)
    case agreed =>
      rintro - target - ⟨other, hmem, hof⟩
      exact absurd hof (hnone' other hmem)
    case torn =>
      refine iff_of_false (by simp [htorn]) ?_
      rintro ⟨-, one, hone, -, -, hof, -⟩
      exact hnone' one hone hof
    case silent => simp [htorn]
    case absent => exact fun _ => hsilent (by simp)
  | owned hmem hof =>
    constructor
    case owned =>
      intro other hother hof'
      rw [hsingular.eq_of_local hother hmem hof' hof]
      exact (hlookup _).mpr rfl
    case agreed => exact fun hforeign => absurd hof (hforeign _ hmem)
    case torn => exact iff_of_false (by simp [htorn]) fun hdiffer => hdiffer.1 _ hmem hof
    case silent => simp [htorn]
    case absent => exact fun hnone => absurd hof.1 (hnone _ hmem)
  | @agreed target span hforeign hsome hagree =>
    obtain ⟨first, hfirst, hof⟩ := hsome
    constructor
    case owned => exact fun other hmem hof => absurd hof (hforeign other hmem)
    case agreed =>
      intro _ common hcommon _
      refine ⟨span, (hlookup _).mpr ?_⟩
      rw [← hcommon first hfirst hof, hagree first hfirst hof]
    case torn =>
      refine iff_of_false (by simp [htorn]) ?_
      rintro ⟨-, one, hone, other, hother, hof, hof', hne⟩
      exact hne ((hagree one hone hof).trans (hagree other hother hof').symm)
    case silent => simp [htorn]
    case absent => exact fun hnone => absurd hof.1 (hnone _ hfirst)
  | torn hforeign hdiffer =>
    obtain ⟨one, hone, other, hother, hof, hof', hne⟩ := id hdiffer
    constructor
    case owned => exact fun other hmem hof => absurd hof (hforeign other hmem)
    case agreed =>
      intro _ common hcommon _
      exact absurd ((hcommon one hone hof).trans (hcommon other hother hof').symm) hne
    case torn => exact iff_of_true (htorn.mpr rfl) ⟨hforeign, hdiffer⟩
    case silent => exact fun _ => hsilent (by simp)
    case absent => exact fun hnone => absurd hof.1 (hnone _ hone)

theorem Renders.perm (h : symbols.Renders order name) (hperm : order.Perm definitions) :
    symbols.Renders definitions name where
  owned := by simpa only [hperm.mem_iff] using h.owned
  agreed := by simpa only [hperm.mem_iff] using h.agreed
  torn := by simpa only [hperm.mem_iff] using h.torn
  silent := h.silent
  absent := by simpa only [hperm.mem_iff] using h.absent

/-! ### Second local definitions -/

theorem owns_defineNonlocal {target : Target} {span : Span} {other : String} :
    (symbols.defineNonlocal name target span).Owns other ↔ symbols.Owns other := by
  refine ⟨?_, Owns.defineNonlocal⟩
  rintro ⟨binding, hlookup, horigin⟩
  rw [lookup_eq_some, SymbolTable.defineNonlocal, Table.get?_insert] at hlookup
  split at hlookup
  case isTrue heq =>
    rw [Option.some.injEq] at hlookup
    unfold SymbolTable.bring at hlookup
    split at hlookup
    case h_1 => cases hlookup; cases horigin
    case h_2 => cases hlookup
    case h_3 hold =>
      split at hlookup
      case isTrue =>
        cases hlookup
        exact ⟨binding, lookup_eq_some.mpr (heq ▸ hold), horigin⟩
      case isFalse => cases hlookup
  case isFalse => exact ⟨binding, lookup_eq_some.mpr hlookup, horigin⟩

/-- A name is the module's own from its first local definition on. -/
theorem owns_attempt :
    (symbols.attempt definition).Owns name ↔ symbols.Owns name ∨ definition.Of .local name := by
  cases hdefine : symbols.define? definition with
  | none =>
    obtain ⟨hlocal, howns⟩ := define?_eq_none.mp hdefine
    simp only [attempt, hdefine, Option.getD_none]
    refine ⟨.inl, fun h => h.elim id fun hof => ?_⟩
    exact hof.1 ▸ howns
  | some next =>
    simp only [attempt, hdefine, Option.getD_some]
    by_cases hname : name = definition.name
    case neg =>
      have hkept := get?_define_of_ne hdefine hname
      have hnot : ¬definition.Of .local name := fun hof => hname hof.1.symm
      simp only [Owns, lookup_eq_some, hkept, hnot, or_false]
    case pos =>
      subst hname
      unfold define? at hdefine
      split at hdefine
      case h_1 hlocal => simp [(owns_defineLocal hdefine).2.1, Definition.Of, hlocal]
      case h_2 hnonlocal =>
        cases hdefine
        simp [owns_defineNonlocal, Definition.Of, hnonlocal]

theorem owns_foldl_attempt :
    (definitions.foldl attempt symbols).Owns name ↔
      symbols.Owns name ∨ ∃ definition ∈ definitions, definition.Of .local name := by
  induction definitions generalizing symbols with
  | nil => simp
  | cons definition rest ih => simp [ih, owns_attempt, or_assoc]

/-- Definitions of which no two are local and of one name make the same table for every reader,
whatever their order.  A second local definition of a name is refused whatever came before, and
leaves the table as it is. -/
theorem definitions_in_any_order :
    (∀ definitions, Singular definitions → ∀ order : List Definition, order.Perm definitions →
      ∃ symbols : SymbolTable, order.foldlM define? {} = some symbols ∧
        ∀ name, symbols.Renders definitions name) ∧
    ∀ (earlier : List Definition) (name : String) (target : Target) (span : Span),
      let symbols := earlier.foldl attempt {}
      (symbols.defineLocal? name target span = none ↔
        ∃ definition ∈ earlier, definition.Of .local name) ∧
      ((∃ definition ∈ earlier, definition.Of .local name) →
        symbols.attempt ⟨name, target, .local, span⟩ = symbols ∧
        ∀ draft : ModuleDraft, draft.symbols = symbols →
          draft.addLocal name target span = .error ⟨.duplicateSymbol name, some span⟩) := by
  constructor
  case left =>
    intro definitions hsingular order hperm
    have hempty : ∀ name, Stands [] name (({} : SymbolTable).entries.get? name) :=
      fun _ => .absent nofun
    obtain ⟨symbols, hfold, hstands⟩ := stands_foldlM hempty (hsingular.perm hperm)
    exact ⟨symbols, hfold, fun name => ((hstands name).renders (hsingular.perm hperm)).perm hperm⟩
  case right =>
    intro earlier name target span symbols
    have howns : symbols.Owns name ↔ ∃ definition ∈ earlier, definition.Of .local name := by
      have hempty : ¬({} : SymbolTable).Owns name := by simp [Owns, lookup]
      exact owns_foldl_attempt.trans (or_iff_right hempty)
    refine ⟨defineLocal?_eq_none.trans howns, fun hearlier => ?_⟩
    have hrefused : symbols.defineLocal? name target span = none :=
      defineLocal?_eq_none.mpr (howns.mpr hearlier)
    refine ⟨by simp [attempt, define?, hrefused], fun draft hdraft => ?_⟩
    simp [ModuleDraft.addLocal, hdraft, hrefused]

/-- Wildcards that agree on one name and not on another, and a local definition between two
wildcards of its name. -/
def crossing : List Definition :=
  [⟨"own", .module ⟨0⟩, .nonlocal, {}⟩, ⟨"torn", .module ⟨0⟩, .nonlocal, {}⟩,
    ⟨"own", .module ⟨1⟩, .local, {}⟩, ⟨"torn", .module ⟨1⟩, .nonlocal, {}⟩,
    ⟨"own", .module ⟨2⟩, .nonlocal, {}⟩, ⟨"shared", .module ⟨2⟩, .nonlocal, {}⟩,
    ⟨"shared", .module ⟨2⟩, .nonlocal, ⟨4, 9, 2, 0⟩⟩]

theorem crossing_backwards :
    (Singular crossing ∧ crossing.reverse.Perm crossing ∧
      ∃ symbols : SymbolTable, crossing.reverse.foldlM define? {} = some symbols ∧
        ∀ name, symbols.Renders crossing name) ∧
    (∃ definition ∈ crossing, definition.Of .local "own") ∧
    (crossing.foldl attempt {}).attempt ⟨"own", .module ⟨3⟩, .local, {}⟩ =
      crossing.foldl attempt {} := by
  have hsingular : Singular crossing := by decide
  have hlocal : ∃ definition ∈ crossing, definition.Of .local "own" :=
    ⟨⟨"own", .module ⟨1⟩, .local, {}⟩, by decide, rfl, rfl⟩
  have hperm := crossing.reverse_perm
  exact ⟨⟨hsingular, hperm, definitions_in_any_order.1 crossing hsingular _ hperm⟩, hlocal,
    ((definitions_in_any_order.2 crossing "own" (.module ⟨3⟩) {}).2 hlocal).1⟩

end SymbolTable
end Attire
