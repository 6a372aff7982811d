import Attire.Proofs.Classes.Matching
import Attire.Typing.Resolve

namespace Attire

/-! Names that stand for the same in two registries of modules. -/

variable {same same' : ClassId → ClassId → Prop} {alike alike' : ModuleId → ModuleId → Prop}

inductive Target.Matches (same : ClassId → ClassId → Prop) (alike : ModuleId → ModuleId → Prop) :
    Target → Target → Prop
  | module {id id' : ModuleId} (h : alike id id') : Matches same alike (.module id) (.module id')
  | cls {id id' : ClassId} (h : same id id') : Matches same alike (.cls id) (.cls id')
  | fabric {module module' : ModuleId} {index : Nat} (h : alike module module') :
      Matches same alike (.fabric ⟨module, index⟩) (.fabric ⟨module', index⟩)

inductive SymbolEntry.Matches (same : ClassId → ClassId → Prop)
    (alike : ModuleId → ModuleId → Prop) : SymbolEntry → SymbolEntry → Prop
  | bound {target target' : Target} {origin : Origin} {span : Span}
      (h : target.Matches same alike target') :
      Matches same alike (.bound ⟨target, origin, span⟩) (.bound ⟨target', origin, span⟩)
  | ambiguous : Matches same alike .ambiguous .ambiguous

def SymbolTable.Matches (same : ClassId → ClassId → Prop) (alike : ModuleId → ModuleId → Prop)
    (symbols symbols' : SymbolTable) : Prop :=
  Table.Pairs (SymbolEntry.Matches same alike) symbols.entries symbols'.entries

/-- The modules see and export the same names, and these stand for the same. -/
structure Module.Matches (same : ClassId → ClassId → Prop) (alike : ModuleId → ModuleId → Prop)
    (module module' : Module) : Prop where
  symbols : module.symbols.Matches same alike module'.symbols
  exports : Table.Pairs (Target.Matches same alike) module.exports module'.exports

/-- Modules of one number in the first registry and the other one in the second are alike. -/
structure ModuleRegistry.Matches (same : ClassId → ClassId → Prop)
    (alike : ModuleId → ModuleId → Prop) (modules modules' : ModuleRegistry) : Prop where
  unique : Relator.BiUnique alike
  get? {id id' : ModuleId} : alike id id' →
    Option.Rel (Module.Matches same alike) (modules.get? id) (modules'.get? id')

structure NameScope.Matches (same : ClassId → ClassId → Prop) (alike : ModuleId → ModuleId → Prop)
    (scope scope' : NameScope) : Prop where
  modules : scope.modules.Matches same alike scope'.modules
  symbols : scope.symbols.Matches same alike scope'.symbols

section

variable (hsame : ∀ id id', same id id' → same' id id')
variable (halike : ∀ id id', alike id id' → alike' id id')
include hsame halike

theorem Target.Matches.imp {target target' : Target} (h : target.Matches same alike target') :
    target.Matches same' alike' target' := by
  cases h with
  | module h => exact .module (halike _ _ h)
  | cls h => exact .cls (hsame _ _ h)
  | fabric h => exact .fabric (halike _ _ h)

theorem SymbolEntry.Matches.imp {entry entry' : SymbolEntry} (h : entry.Matches same alike entry') :
    entry.Matches same' alike' entry' := by
  cases h with
  | bound h => exact .bound (h.imp hsame halike)
  | ambiguous => exact .ambiguous

theorem SymbolTable.Matches.imp {symbols symbols' : SymbolTable}
    (h : symbols.Matches same alike symbols') : symbols.Matches same' alike' symbols' :=
  Table.Matches.imp h (fun _ _ h => h) fun _ _ h => h.imp hsame halike

theorem Module.Matches.imp {module module' : Module} (h : module.Matches same alike module') :
    module.Matches same' alike' module' where
  symbols := h.symbols.imp hsame halike
  exports := h.exports.imp (fun _ _ h => h) fun _ _ h => h.imp hsame halike

end

theorem ModuleRegistry.Matches.imp {modules modules' : ModuleRegistry}
    (h : modules.Matches same alike modules') (hsame : ∀ id id', same id id' → same' id id') :
    modules.Matches same' alike modules' where
  unique := h.unique
  get? hid := by
    obtain ⟨hnone, hnone'⟩ | ⟨module, module', hsome, hsome', hmodule⟩ := rel_cases (h.get? hid)
    · rw [hnone, hnone']
      exact .none
    · rw [hsome, hsome']
      exact .some (hmodule.imp hsame fun _ _ h => h)

theorem Target.Matches.eq_iff (hclasses : Relator.BiUnique same) (hmodules : Relator.BiUnique alike)
    {a a' b b' : Target} (h : a.Matches same alike a') (h' : b.Matches same alike b') :
    a = b ↔ a' = b' := by
  cases h with
  | module h =>
    cases h' with
    | module h' => simp [Relator.rel_eq hmodules h h']
    | _ => simp
  | cls h =>
    cases h' with
    | cls h' => simp [Relator.rel_eq hclasses h h']
    | _ => simp
  | fabric h =>
    cases h' with
    | fabric h' => simp [Relator.rel_eq hmodules h h']
    | _ => simp

namespace SymbolTable.Matches

variable {symbols symbols' : SymbolTable} {name : String} {target target' : Target} {span : Span}

theorem lookup (h : symbols.Matches same alike symbols') (name : String) :
    Option.Rel (fun binding binding' => binding.target.Matches same alike binding'.target ∧
      binding.origin = binding'.origin) (symbols.lookup name) (symbols'.lookup name) := by
  have hget := Table.Matches.get? Table.biUnique_eq h (rfl : name = name)
  unfold SymbolTable.lookup
  obtain ⟨hnone, hnone'⟩ | ⟨entry, entry', hsome, hsome', hentry⟩ := rel_cases hget
  · rw [hnone, hnone']
    exact .none
  · rw [hsome, hsome']
    cases hentry with
    | bound h => exact .some ⟨h, rfl⟩
    | ambiguous => exact .none

theorem defineLocal? (h : symbols.Matches same alike symbols')
    (htarget : target.Matches same alike target') :
    Option.Rel (SymbolTable.Matches same alike) (symbols.defineLocal? name target span)
      (symbols'.defineLocal? name target' span) := by
  have hlookup := h.lookup name
  have hadd : SymbolTable.Matches same alike
      ⟨symbols.entries.insert name (.bound ⟨target, .local, span⟩)⟩
      ⟨symbols'.entries.insert name (.bound ⟨target', .local, span⟩)⟩ :=
    Table.Matches.insert Table.biUnique_eq h rfl (.bound htarget)
  unfold SymbolTable.defineLocal?
  obtain ⟨hnone, hnone'⟩ | ⟨binding, binding', hsome, hsome', hbinding⟩ := rel_cases hlookup
  · rw [hnone, hnone']
    exact .some hadd
  · rw [hsome, hsome']
    obtain ⟨target, origin, span⟩ := binding
    obtain ⟨target', origin', span'⟩ := binding'
    obtain rfl : origin = origin' := hbinding.2
    cases origin with
    | «local» => exact .none
    | nonlocal => exact .some hadd

theorem defineNonlocal (h : symbols.Matches same alike symbols')
    (hclasses : Relator.BiUnique same) (hmodules : Relator.BiUnique alike)
    (htarget : target.Matches same alike target') :
    (symbols.defineNonlocal name target span).Matches same alike
      (symbols'.defineNonlocal name target' span) := by
  refine Table.Matches.insert Table.biUnique_eq h rfl ?_
  have hget := Table.Matches.get? Table.biUnique_eq h (rfl : name = name)
  obtain ⟨hnone, hnone'⟩ | ⟨entry, entry', hsome, hsome', hentry⟩ := rel_cases hget
  · rw [hnone, hnone']
    exact .bound htarget
  · rw [hsome, hsome']
    cases hentry with
    | ambiguous => exact .ambiguous
    | bound hold =>
      simp only [SymbolTable.bring, hold.eq_iff hclasses hmodules htarget]
      split
      · exact .bound hold
      · exact .ambiguous

end SymbolTable.Matches

theorem ModuleRegistry.Matches.getByUrl? {modules modules' : ModuleRegistry}
    (h : modules.Matches same alike modules') {url : String}
    (hurl : Option.Rel alike (modules.find? url) (modules'.find? url)) :
    Option.Rel (Module.Matches same alike) (modules.getByUrl? url) (modules'.getByUrl? url) := by
  unfold ModuleRegistry.getByUrl?
  obtain ⟨hnone, hnone'⟩ | ⟨id, id', hsome, hsome', hid⟩ := rel_cases hurl
  · rw [hnone, hnone']
    exact .none
  · rw [hsome, hsome']
    exact h.get? hid

theorem ModuleRegistry.Matches.export? {modules modules' : ModuleRegistry}
    (h : modules.Matches same alike modules') {id id' : ModuleId} (hid : alike id id')
    (name : String) : Option.Rel (Target.Matches same alike) (modules.export? id name)
      (modules'.export? id' name) := by
  unfold ModuleRegistry.export?
  obtain ⟨hnone, hnone'⟩ | ⟨module, module', hsome, hsome', hmodule⟩ := rel_cases (h.get? hid)
  · rw [hnone, hnone']
    exact .none
  · rw [hsome, hsome']
    exact hmodule.exports.get? Table.biUnique_eq rfl

namespace NameScope.Matches

variable {scope scope' : NameScope}

theorem follow_agree (h : scope.Matches same alike scope') {path walked steps : List String}
    {target target' : Target} (htarget : target.Matches same alike target') :
    Agree (Target.Matches same alike) (scope.follow path target walked steps)
      (scope'.follow path target' walked steps) := by
  induction steps generalizing target target' walked with
  | nil => exact .ok htarget
  | cons step rest ih =>
    cases htarget with
    | module hid =>
      obtain ⟨hnone, hnone'⟩ | ⟨next, next', hsome, hsome', hnext⟩ :=
        rel_cases (h.modules.export? hid step)
      · simp only [NameScope.follow, hnone, hnone']
        exact .error _
      · simp only [NameScope.follow, hsome, hsome']
        exact ih hnext
    | cls => exact .error _
    | fabric => exact .error _

theorem resolve_agree (h : scope.Matches same alike scope') (path : Path) :
    Agree (Target.Matches same alike) (scope.resolve path) (scope'.resolve path) := by
  cases path with
  | nil => exact .error _
  | cons first rest =>
    have hlookup := h.symbols.lookup first
    simp only [NameScope.resolve]
    obtain ⟨hnone, hnone'⟩ | ⟨binding, binding', hsome, hsome', hbinding⟩ := rel_cases hlookup
    · rw [hnone, hnone']
      exact .error _
    · rw [hsome, hsome']
      exact h.follow_agree hbinding.1

theorem resolveClass_agree (h : scope.Matches same alike scope') (path : Path) :
    Agree same (scope.resolveClass path) (scope'.resolveClass path) := by
  refine (h.resolve_agree path).bind ?_
  rintro _ _ ⟨⟩
  case cls hid => exact .pure hid
  all_goals exact .error _

theorem resolveModule_agree (h : scope.Matches same alike scope') (path : Path) :
    Agree alike (scope.resolveModule path) (scope'.resolveModule path) := by
  refine (h.resolve_agree path).bind ?_
  rintro _ _ ⟨⟩
  case module hid => exact .pure hid
  all_goals exact .error _

mutual

theorem resolveType_agree (h : scope.Matches same alike scope') : ∀ ty : TypeExpr,
    Agree (Ty.Matches same) (scope.resolveType ty) (scope'.resolveType ty)
  | .num => .ok .num
  | .text => .ok .text
  | .bool => .ok .bool
  | .void => .ok .void
  | .suggestion => .ok .suggestion
  | .array element => by
    simp only [NameScope.resolveType]
    exact (resolveType_agree h element).bind fun _ _ helement => .pure (.array helement)
  | .set element => by
    simp only [NameScope.resolveType]
    exact (resolveType_agree h element).bind fun _ _ helement => .pure (.set helement)
  | .map key value => by
    simp only [NameScope.resolveType]
    exact (resolveType_agree h key).bind fun _ _ hkey =>
      (resolveType_agree h value).bind fun _ _ hvalue => .pure (.map hkey hvalue)
  | .tuple elements => by
    simp only [NameScope.resolveType]
    exact (resolveTypes_agree h elements).bind fun _ _ helements => .pure (.tuple helements)
  | .named path => by
    simp only [NameScope.resolveType]
    exact (h.resolveClass_agree path).bind fun _ _ hcls => .pure (.object hcls)

theorem resolveTypes_agree (h : scope.Matches same alike scope') : ∀ types : List TypeExpr,
    Agree (List.Forall₂ (Ty.Matches same)) (scope.resolveTypes types) (scope'.resolveTypes types)
  | [] => .ok .nil
  | ty :: rest => by
    simp only [NameScope.resolveTypes]
    exact (resolveType_agree h ty).bind fun _ _ hty =>
      (resolveTypes_agree h rest).bind fun _ _ hrest => .pure (.cons hty hrest)

end

end NameScope.Matches

end Attire
