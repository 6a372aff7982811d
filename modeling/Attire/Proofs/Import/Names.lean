import Attire.Import.Build
import Attire.Proofs.Results
import Attire.Proofs.Tables

namespace Attire

/-! Names lead to targets with a property if all tables do. -/

/-- All names of the table stand for targets with a property. -/
def SymbolTable.All (symbols : SymbolTable) (holds : Target → Prop) : Prop :=
  ∀ name binding, symbols.lookup name = some binding → holds binding.target

/-- All exports are targets with a property. -/
def ExportTable.All (exports : ExportTable) (holds : Target → Prop) : Prop :=
  ∀ entry ∈ exports.entries, holds entry.2

variable {holds holds' : Target → Prop} {symbols next : SymbolTable} {name : String}
variable {target : Target} {span : Span}

theorem SymbolTable.lookup_eq_some {binding : Binding} :
    symbols.lookup name = some binding ↔ symbols.entries.get? name = some (.bound binding) := by
  unfold lookup
  split <;> simp_all

theorem SymbolTable.all_empty : ({} : SymbolTable).All holds := nofun

theorem SymbolTable.All.imp (h : symbols.All holds) (himp : ∀ target, holds target → holds' target) :
    symbols.All holds' :=
  fun name binding hlookup => himp _ (h name binding hlookup)

theorem SymbolTable.All.defineLocal (h : symbols.All holds) (htarget : holds target)
    (hdefine : symbols.defineLocal? name target span = some next) : next.All holds := by
  unfold defineLocal? at hdefine
  split at hdefine
  case h_1 => cases hdefine
  case h_2 =>
    cases hdefine
    intro other binding hlookup
    rw [lookup_eq_some, Table.get?_insert] at hlookup
    split at hlookup
    · cases hlookup
      exact htarget
    · exact h other binding (lookup_eq_some.mpr hlookup)

/-- The module itself declares the name. -/
def SymbolTable.Owns (symbols : SymbolTable) (name : String) : Prop :=
  ∃ binding, symbols.lookup name = some binding ∧ binding.origin = .local

/-- A name is declared once. -/
theorem SymbolTable.owns_defineLocal (h : symbols.defineLocal? name target span = some next) :
    ¬symbols.Owns name ∧ next.Owns name ∧ ∀ other, symbols.Owns other → next.Owns other := by
  unfold defineLocal? at h
  split at h
  case h_1 => cases h
  case h_2 hunowned =>
    cases h
    have hfresh : ¬symbols.Owns name := by
      rintro ⟨⟨target, _, span⟩, hlookup, rfl⟩
      exact hunowned target span hlookup
    refine ⟨hfresh, ⟨⟨target, .local, span⟩, by simp [lookup], rfl⟩, ?_⟩
    rintro other ⟨binding, hlookup, horigin⟩
    refine ⟨binding, ?_, horigin⟩
    rw [lookup_eq_some, Table.get?_insert, if_neg, lookup_eq_some.mp hlookup]
    rintro rfl
    exact hfresh ⟨binding, hlookup, horigin⟩

theorem SymbolTable.Owns.defineNonlocal {other : String} (h : symbols.Owns other) :
    (symbols.defineNonlocal name target span).Owns other := by
  obtain ⟨binding, hlookup, horigin⟩ := h
  refine ⟨binding, ?_, horigin⟩
  rw [lookup_eq_some, SymbolTable.defineNonlocal, Table.get?_insert]
  rw [lookup_eq_some] at hlookup
  split
  case isTrue heq => rw [← heq, hlookup, bring, if_pos (.inl horigin)]
  case isFalse => exact hlookup

theorem SymbolTable.Owns.defineExports {exports : List (String × Target)} {other : String}
    (h : symbols.Owns other) :
    (exports.foldl (fun symbols entry => symbols.defineNonlocal entry.1 entry.2 span)
      symbols).Owns other := by
  induction exports generalizing symbols with
  | nil => exact h
  | cons entry rest ih => exact ih h.defineNonlocal

theorem SymbolTable.All.defineNonlocal (h : symbols.All holds) (htarget : holds target) :
    (symbols.defineNonlocal name target span).All holds := by
  intro other binding hlookup
  rw [lookup_eq_some, SymbolTable.defineNonlocal, Table.get?_insert] at hlookup
  split at hlookup
  case isTrue =>
    unfold bring at hlookup
    split at hlookup
    case h_1 =>
      cases hlookup
      exact htarget
    case h_2 => cases hlookup
    case h_3 old hold =>
      split at hlookup
      · cases hlookup
        exact h name binding (lookup_eq_some.mpr hold)
      · cases hlookup
  case isFalse => exact h other binding (lookup_eq_some.mpr hlookup)

theorem SymbolTable.All.defineExports {exports : List (String × Target)} (h : symbols.All holds)
    (hexports : ∀ entry ∈ exports, holds entry.2) :
    (exports.foldl (fun symbols entry => symbols.defineNonlocal entry.1 entry.2 span)
      symbols).All holds := by
  induction exports generalizing symbols with
  | nil => exact h
  | cons entry rest ih =>
    exact ih (h.defineNonlocal (hexports entry (by simp)))
      fun other hmem => hexports other (List.mem_cons_of_mem _ hmem)

theorem ExportTable.All.insert {exports : ExportTable} (h : exports.All holds)
    (htarget : holds target) : ExportTable.All (exports.insert name target) holds := by
  intro entry hmem
  rcases Table.mem_insert hmem with rfl | hmem
  · exact htarget
  · exact h entry hmem

/-- The tables that a name can lead through. -/
structure NameScope.All (scope : NameScope) (holds : Target → Prop) : Prop where
  symbols : scope.symbols.All holds
  exports {id : ModuleId} {module : Module} : scope.modules.get? id = some module →
    ExportTable.All module.exports holds

namespace NameScope

variable {scope : NameScope} {path : Path}

theorem All.follow (h : scope.All holds) :
    ∀ {rest walked : List String} {start : Target}, holds start →
      scope.follow path start walked rest = .ok target → holds target
  | [], _, _, hstart, hfollow => by
    cases hfollow
    exact hstart
  | step :: rest, walked, start, hstart, hfollow => by
    cases start with
    | module id =>
      simp only [NameScope.follow] at hfollow
      split at hfollow
      case h_1 middle hexport =>
        obtain ⟨module, hmodule, hget⟩ := Option.bind_eq_some_iff.mp hexport
        exact h.follow (h.exports hmodule _ (Table.mem_of_get? hget)) hfollow
      case h_2 => cases hfollow
    | _ => cases hfollow

theorem All.resolve (h : scope.All holds) (hresolve : scope.resolve path = .ok target) :
    holds target := by
  unfold NameScope.resolve at hresolve
  split at hresolve
  case h_1 => cases hresolve
  case h_2 first rest =>
    split at hresolve
    case h_1 binding hlookup => exact h.follow (h.symbols _ _ hlookup) hresolve
    case h_2 => cases hresolve

theorem All.resolveClass (h : scope.All holds) {cls : ClassId}
    (hresolve : scope.resolveClass path = .ok cls) : holds (.cls cls) := by
  obtain ⟨target, htarget, hcls⟩ := bind_eq_ok.mp hresolve
  cases target with
  | cls id =>
    cases hcls
    exact h.resolve htarget
  | _ => cases hcls

theorem All.resolveModule (h : scope.All holds) {id : ModuleId}
    (hresolve : scope.resolveModule path = .ok id) : holds (.module id) := by
  obtain ⟨target, htarget, hid⟩ := bind_eq_ok.mp hresolve
  cases target with
  | module other =>
    cases hid
    exact h.resolve htarget
  | _ => cases hid

end NameScope

/-- The target is registered. -/
def Target.Stands (modules : ModuleRegistry) (classes : ClassRegistry) (fabrics : Fabrics) :
    Target → Prop
  | .module id => ∃ module, modules.get? id = some module
  | .cls id => classes.contains id
  | .fabric id => ∃ value, fabrics id = some value

end Attire
