import Attire.Proofs.Import.Compiled

namespace Attire

/-! Installing the routines of a module. -/

def Installation.cls : Installation → ClassId
  | .body cls _ _ | .initializer cls _ _ => cls

/-- What the second registry has installed more than the first. -/
structure ClassRegistry.Installs (classes next : ClassRegistry)
    (installations : List Installation) : Prop where
  forth : classes.Outlines next
  back : next.Outlines classes
  byName : next.byName = classes.byName
  others {cls : ClassId} : (∀ item ∈ installations, item.cls ≠ cls) →
    next.get? cls = classes.get? cls
  body {cls : ClassId} {found : ClassDef} {slot : MethodSlot} {routine : Routine} :
    next.get? cls = some found → (slot, routine) ∈ found.bodies.entries →
    (∃ old, classes.get? cls = some old ∧ (slot, routine) ∈ old.bodies.entries) ∨
      .body cls slot routine ∈ installations
  initializer {cls : ClassId} {found : ClassDef} {name : String} {routine : Routine} :
    next.get? cls = some found → (name, routine) ∈ found.initializers.entries →
    (∃ old, classes.get? cls = some old ∧ (name, routine) ∈ old.initializers.entries) ∨
      .initializer cls name routine ∈ installations
  installed {cls : ClassId} {found : ClassDef} {slot : MethodSlot} {routine : Routine} :
    next.get? cls = some found → .body cls slot routine ∈ installations →
    found.bodies.contains slot
  kept {cls : ClassId} {old found : ClassDef} {slot : MethodSlot} :
    classes.get? cls = some old → next.get? cls = some found → old.bodies.contains slot →
    found.bodies.contains slot
  distinct {cls : ClassId} {old found : ClassDef} : classes.get? cls = some old →
    next.get? cls = some found → old.bodies.keys.Nodup → found.bodies.keys.Nodup

namespace ClassRegistry.Installs

variable {classes next last : ClassRegistry} {first second : List Installation}

theorem nil (classes : ClassRegistry) : classes.Installs classes [] where
  forth := (Extends.refl classes).outlines
  back := (Extends.refl classes).outlines
  byName := rfl
  others _ := rfl
  body hget hmem := .inl ⟨_, hget, hmem⟩
  initializer hget hmem := .inl ⟨_, hget, hmem⟩
  installed _ hmem := by cases hmem
  kept hold hfound hslot := by
    rw [hold] at hfound
    cases hfound
    exact hslot
  distinct hold hfound hnodup := by
    rw [hold] at hfound
    cases hfound
    exact hnodup

theorem append (h : classes.Installs next first) (h' : next.Installs last second) :
    classes.Installs last (first ++ second) where
  forth := h.forth.trans h'.forth
  back := h'.back.trans h.back
  byName := h'.byName.trans h.byName
  others hothers :=
    (h'.others fun item hmem => hothers item (List.mem_append_right _ hmem)).trans
      (h.others fun item hmem => hothers item (List.mem_append_left _ hmem))
  body hget hmem := by
    rcases h'.body hget hmem with ⟨old, hold, hmem⟩ | hmem
    · exact (h.body hold hmem).imp id (List.mem_append_left _)
    · exact .inr (List.mem_append_right _ hmem)
  initializer hget hmem := by
    rcases h'.initializer hget hmem with ⟨old, hold, hmem⟩ | hmem
    · exact (h.initializer hold hmem).imp id (List.mem_append_left _)
    · exact .inr (List.mem_append_right _ hmem)
  installed hget hmem := by
    obtain ⟨middle, hmiddle, -⟩ := h'.back _ _ hget
    rcases List.mem_append.mp hmem with hmem | hmem
    · exact h'.kept hmiddle hget (h.installed hmiddle hmem)
    · exact h'.installed hget hmem
  kept hold hfound hslot := by
    obtain ⟨middle, hmiddle, -⟩ := h'.back _ _ hfound
    exact h'.kept hmiddle hfound (h.kept hold hmiddle hslot)
  distinct hold hfound hnodup := by
    obtain ⟨middle, hmiddle, -⟩ := h'.back _ _ hfound
    exact h'.distinct hmiddle hfound (h.distinct hold hmiddle hnodup)

end ClassRegistry.Installs

theorem ClassRegistry.outlines_modify {classes : ClassRegistry} {cls : ClassId}
    {change : ClassDef → ClassDef} (halike : ∀ found : ClassDef, found.Alike (change found)) :
    classes.Outlines (classes.modify cls change) ∧ (classes.modify cls change).Outlines classes := by
  refine ⟨fun other found hget => ?_, fun other found hget => ?_⟩
  · rw [get?_modify, hget]
    split
    · exact ⟨_, rfl, halike found⟩
    · exact ⟨_, rfl, .refl⟩
  · rw [get?_modify] at hget
    split at hget
    · obtain ⟨old, hold, rfl⟩ := Option.map_eq_some_iff.mp hget
      exact ⟨old, hold, (halike old).symm⟩
    · exact ⟨found, hget, .refl⟩

namespace Installation

variable {classes : ClassRegistry} {installations : List Installation}

theorem modify_installs {installation : Installation} {change : ClassDef → ClassDef}
    (halike : ∀ found : ClassDef, found.Alike (change found))
    (hbody : ∀ found slot routine, (slot, routine) ∈ (change found).bodies.entries →
      (slot, routine) ∈ found.bodies.entries ∨
        .body installation.cls slot routine = installation)
    (hinitializer : ∀ found name routine, (name, routine) ∈ (change found).initializers.entries →
      (name, routine) ∈ found.initializers.entries ∨
        .initializer installation.cls name routine = installation)
    (hinstalled : ∀ found slot routine, .body installation.cls slot routine = installation →
      (change found).bodies.contains slot)
    (hkept : ∀ (found : ClassDef) (slot : MethodSlot), found.bodies.contains slot →
      (change found).bodies.contains slot)
    (hdistinct : ∀ found : ClassDef, found.bodies.keys.Nodup →
      (change found).bodies.keys.Nodup) :
    classes.Installs (classes.modify installation.cls change) [installation] := by
  have hget : ∀ {cls found}, (classes.modify installation.cls change).get? cls = some found →
      (cls ≠ installation.cls ∧ classes.get? cls = some found) ∨
        cls = installation.cls ∧ ∃ old, classes.get? cls = some old ∧ found = change old := by
    intro cls found hfound
    rw [ClassRegistry.get?_modify] at hfound
    split at hfound
    case isTrue heq =>
      obtain ⟨old, hold, rfl⟩ := Option.map_eq_some_iff.mp hfound
      exact .inr ⟨heq, old, hold, rfl⟩
    case isFalse hne => exact .inl ⟨hne, hfound⟩
  constructor
  case forth => exact (ClassRegistry.outlines_modify halike).1
  case back => exact (ClassRegistry.outlines_modify halike).2
  case byName => rfl
  case others =>
    intro cls hothers
    exact ClassRegistry.get?_modify.trans
      (if_neg fun heq => hothers installation (by simp) heq.symm)
  case body =>
    intro cls found slot routine hfound hmem
    rcases hget hfound with ⟨-, hold⟩ | ⟨rfl, old, hold, rfl⟩
    · exact .inl ⟨found, hold, hmem⟩
    · exact (hbody old slot routine hmem).imp (fun h => ⟨old, hold, h⟩) List.mem_singleton.mpr
  case initializer =>
    intro cls found name routine hfound hmem
    rcases hget hfound with ⟨-, hold⟩ | ⟨rfl, old, hold, rfl⟩
    · exact .inl ⟨found, hold, hmem⟩
    · exact (hinitializer old name routine hmem).imp (fun h => ⟨old, hold, h⟩)
        List.mem_singleton.mpr
  case installed =>
    intro cls found slot routine hfound hmem
    have heq := List.mem_singleton.mp hmem
    have hcls : cls = installation.cls := heq ▸ rfl
    subst hcls
    rcases hget hfound with ⟨hne, -⟩ | ⟨-, old, -, rfl⟩
    · exact absurd rfl hne
    · exact hinstalled old slot routine heq
  case kept =>
    intro cls old found slot hold hfound hslot
    rcases hget hfound with ⟨-, hsame⟩ | ⟨-, old', hold', rfl⟩
    · rw [hold] at hsame
      cases hsame
      exact hslot
    · rw [hold] at hold'
      cases hold'
      exact hkept old slot hslot
  case distinct =>
    intro cls old found hold hfound hnodup
    rcases hget hfound with ⟨-, hsame⟩ | ⟨-, old', hold', rfl⟩
    · rw [hold] at hsame
      cases hsame
      exact hnodup
    · rw [hold] at hold'
      cases hold'
      exact hdistinct old hnodup

theorem apply_installs (installation : Installation) :
    classes.Installs (installation.apply classes) [installation] := by
  cases installation with
  | body cls slot routine =>
    change classes.Installs
      (classes.modify (Installation.body cls slot routine).cls fun found =>
        { found with bodies := found.bodies.insert slot routine }) _
    refine modify_installs (fun _ => ⟨rfl, rfl, rfl, rfl, rfl, rfl, rfl, rfl, rfl⟩)
      (fun found other code hmem => ?_) (fun _ _ _ hmem => .inl hmem) ?_ (fun found other hother => ?_)
      fun _ hnodup => Table.nodup_insert hnodup
    · exact (Table.mem_insert hmem).symm.imp id fun heq => by cases heq; rfl
    · rintro found _ _ ⟨⟩
      exact Option.isSome_iff_exists.mpr ⟨routine, Table.get?_insert_self _ _ _⟩
    · unfold Table.contains at hother ⊢
      rw [Table.get?_insert]
      split
      · rfl
      · exact hother
  | initializer cls name routine =>
    change classes.Installs
      (classes.modify (Installation.initializer cls name routine).cls fun found =>
        { found with initializers := found.initializers.insert name routine }) _
    refine modify_installs (fun _ => ⟨rfl, rfl, rfl, rfl, rfl, rfl, rfl, rfl, rfl⟩)
      (fun _ _ _ hmem => .inl hmem) (fun found other code hmem => ?_) (fun _ _ _ h => by cases h)
      (fun _ _ h => h) fun _ h => h
    exact (Table.mem_insert hmem).symm.imp id fun heq => by cases heq; rfl

theorem foldl_installs (classes : ClassRegistry) (installations : List Installation) :
    classes.Installs (installations.foldl Installation.apply classes) installations := by
  induction installations generalizing classes with
  | nil => exact ClassRegistry.Installs.nil classes
  | cons first rest ih => exact (apply_installs first).append (ih _)

end Installation

namespace Body

/-! The bodies of a class, checked and compiled. -/

variable {classes : ClassRegistry} {names : NameScope} {specs : List MemberSpec}

def method? : Member → Option MethodDecl
  | .method decl => some decl
  | .field _ => none

theorem length_resolveTypes {types : List TypeExpr} {answers : List Ty}
    (h : names.resolveTypes types = .ok answers) : answers.length = types.length := by
  induction types generalizing answers with
  | nil =>
    cases h
    rfl
  | cons type rest ih =>
    obtain ⟨_, -, h⟩ := bind_eq_ok.mp h
    obtain ⟨_, hrest, h⟩ := bind_eq_ok.mp h
    cases h
    rw [List.length_cons, List.length_cons, ih hrest]

/-- Methods have the names and the numbers of parameters with which they were written. -/
def Matches (method : MethodDecl) (sig : MethodSig) : Prop :=
  sig.name = method.name ∧ sig.params.length = method.params.length ∧ sig.Written

theorem matches_specs {members : List Member}
    (h : List.Forall₂ (fun member spec => memberSpec names member = .ok spec) members specs) :
    List.Forall₂ Matches (members.filterMap method?)
      ((specs.filterMap MemberSpec.method?).map fun spec => spec.signature ⟨0⟩) := by
  induction h with
  | nil => exact .nil
  | @cons member spec _ _ hspec _ ih =>
    cases member with
    | field field =>
      obtain ⟨_, -, h⟩ := bind_eq_ok.mp hspec
      cases h
      exact ih
    | method method =>
      obtain ⟨params, hparams, h⟩ := bind_eq_ok.mp hspec
      obtain ⟨ret, hret, h⟩ := bind_eq_ok.mp h
      cases h
      replace hparams := mapError_eq_ok.mp hparams
      refine .cons ⟨rfl, ?_, ?_, ?_⟩ ih
      · have hlength := length_resolveTypes hparams
        rwa [List.length_map] at hlength
      · exact ⟨names, method.ret, mapError_eq_ok.mp hret⟩
      · exact Ty.written_of_resolveTypes hparams

theorem matches_own {members : List Member} {ownFields : List OwnField}
    {ownMethods : List MethodSig} (hspecs : members.mapM (memberSpec names) = .ok specs)
    (hrealizes : Realizes specs ownFields ownMethods) :
    List.Forall₂ Matches (members.filterMap method?) ownMethods := by
  have hspecs := matches_specs (mapM_eq_ok hspecs)
  rw [← hrealizes.methods, List.forall₂_map_right_iff] at hspecs
  exact hspecs.imp fun _ _ ⟨hname, hlength, hwritten⟩ => ⟨hname, hlength, hwritten.1, hwritten.2⟩

/-- The types of fields are written down. -/
theorem written_own {members : List Member} {ownFields : List OwnField}
    {ownMethods : List MethodSig} (hspecs : members.mapM (memberSpec names) = .ok specs)
    (hrealizes : Realizes specs ownFields ownMethods) : ∀ own ∈ ownFields, own.ty.Written := by
  intro own hown
  rw [hrealizes.fields] at hown
  obtain ⟨spec, hspec, hfield⟩ := List.mem_filterMap.mp hown
  obtain ⟨member, -, hmember⟩ := (mem_of_forall₂ (mapM_eq_ok hspecs)).2 spec hspec
  cases member with
  | field field =>
    obtain ⟨ty, hty, h⟩ := bind_eq_ok.mp hmember
    cases h
    cases hfield
    exact ⟨names, field.ty, mapError_eq_ok.mp hty⟩
  | method method =>
    obtain ⟨_, -, h⟩ := bind_eq_ok.mp hmember
    obtain ⟨_, -, h⟩ := bind_eq_ok.mp h
    cases h
    cases hfield

theorem mem_methods {members : List Member} {method : MethodDecl} :
    method ∈ members.filterMap method? ↔ Member.method method ∈ members := by
  rw [List.mem_filterMap]
  constructor
  · rintro ⟨member, hmem, heq⟩
    cases member <;> cases heq
    exact hmem
  · exact fun hmem => ⟨_, hmem, rfl⟩

section

variable {id : ClassId} {decl : ClassDecl} {found : ClassDef}
variable (hget : classes.get? id = some found) (hid : found.id = id)
variable (hmatches : List.Forall₂ Matches (decl.members.filterMap method?) found.ownMethods)
variable (hnodup : (found.ownMethods.map MethodSig.name).Nodup)
include hget

theorem mem_ofClass {body : Body} (h : body ∈ ofClass classes id decl) :
    ∃ member ∈ decl.members, ofMember found member = some body := by
  rw [ofClass, hget] at h
  exact List.mem_filterMap.mp h

include hid hmatches hnodup in
theorem method_of_ofClass {cls : ClassId} {sig : MethodSig} {method : MethodDecl}
    (h : .method cls sig method ∈ ofClass classes id decl) :
    cls = id ∧ sig ∈ found.ownMethods ∧ Member.method method ∈ decl.members ∧
      Matches method sig := by
  obtain ⟨member, hmember, hbody⟩ := mem_ofClass hget h
  cases member with
  | field field =>
    obtain ⟨_, -, heq⟩ := Option.map_eq_some_iff.mp hbody
    cases heq
  | method other =>
    obtain ⟨_, hfind, heq⟩ := Option.map_eq_some_iff.mp hbody
    cases heq
    have hsig := List.mem_of_find?_eq_some hfind
    have hname : sig.name = method.name := by simpa using List.find?_some hfind
    refine ⟨hid, hsig, hmember, ?_⟩
    -- No other method of the class has the name.
    obtain ⟨other, hother, hmatch⟩ :=
      (mem_of_forall₂ hmatches).1 method (mem_methods.mpr hmember)
    have hsame : sig = other :=
      List.inj_on_of_nodup_map hnodup hsig hother (hname.trans hmatch.1.symm)
    exact hsame ▸ hmatch

include hid hmatches hnodup in
theorem ofClass_method {sig : MethodSig} (h : sig ∈ found.ownMethods) :
    ∃ method, .method id sig method ∈ ofClass classes id decl := by
  obtain ⟨method, hmethod, hmatch⟩ := (mem_of_forall₂ hmatches).2 sig h
  refine ⟨method, ?_⟩
  rw [ofClass, hget]
  refine List.mem_filterMap.mpr ⟨.method method, mem_methods.mp hmethod, ?_⟩
  refine Option.map_eq_some_iff.mpr ⟨sig, ?_, by rw [hid]⟩
  cases hfind : found.ownMethods.find? fun sig => sig.name = method.name with
  | none => simpa [hmatch.1] using List.find?_eq_none.mp hfind sig h
  | some other =>
    have hname : other.name = method.name := by simpa using List.find?_some hfind
    rw [List.inj_on_of_nodup_map hnodup (List.mem_of_find?_eq_some hfind) h
      (hname.trans hmatch.1.symm)]

include hid in
theorem initializer_of_ofClass {cls : ClassId} {ty : Ty} {field : FieldDecl}
    (h : .initializer cls ty field ∈ ofClass classes id decl) :
    cls = id ∧ Member.field field ∈ decl.members ∧
      ∃ own ∈ found.ownFields, own.name = field.name ∧ own.ty = ty := by
  obtain ⟨member, hmember, hbody⟩ := mem_ofClass hget h
  cases member with
  | field other =>
    obtain ⟨own, hfind, heq⟩ := Option.map_eq_some_iff.mp hbody
    cases heq
    exact ⟨hid, hmember, own, List.mem_of_find?_eq_some hfind,
      by simpa using List.find?_some hfind, rfl⟩
  | method method =>
    obtain ⟨_, -, heq⟩ := Option.map_eq_some_iff.mp hbody
    cases heq

end

section

variable {ctx : CheckContext} {fabrics : Fabrics} {bodies checked : List Body}
variable {installations : List (Option Installation)} {cls : ClassId}
variable (hcheck : bodies.mapM (check ctx) = .ok checked)
variable (hlower : checked.mapM (lower classes fabrics) = .ok installations)
include hcheck hlower

theorem mem_installations {installation : Installation}
    (h : installation ∈ installations.filterMap id) :
    ∃ body ∈ bodies, ∃ middle, check ctx body = .ok middle ∧
      lower classes fabrics middle = .ok (some installation) := by
  obtain ⟨_, hmem, rfl⟩ := List.mem_filterMap.mp h
  obtain ⟨middle, hmiddle, hlowered⟩ := (mem_of_forall₂ (mapM_eq_ok hlower)).2 _ hmem
  obtain ⟨body, hbody, hchecked⟩ := (mem_of_forall₂ (mapM_eq_ok hcheck)).2 _ hmiddle
  exact ⟨body, hbody, middle, hchecked, hlowered⟩

theorem body_of_installations {slot : MethodSlot} {routine : Routine}
    (h : .body cls slot routine ∈ installations.filterMap id) :
    ∃ sig method answer name, .method cls sig method ∈ bodies ∧ sig.slot = slot ∧
      ctx.checkMethod cls sig method = .ok answer ∧
      lowerMethod fabrics name sig answer = .ok routine := by
  obtain ⟨body, hbody, middle, hchecked, hlowered⟩ := mem_installations hcheck hlower h
  cases body with
  | method owner sig method =>
    obtain ⟨answer, hanswer, heq⟩ := bind_eq_ok.mp hchecked
    cases heq
    obtain ⟨code, hcode, heq⟩ := bind_eq_ok.mp hlowered
    cases heq
    exact ⟨sig, method, answer, _, hbody, rfl, hanswer, hcode⟩
  | initializer owner ty field =>
    obtain ⟨answer, -, heq⟩ := bind_eq_ok.mp hchecked
    cases heq
    rw [lower] at hlowered
    split at hlowered
    · cases hlowered
    · obtain ⟨code, -, heq⟩ := bind_eq_ok.mp hlowered
      cases heq

theorem initializer_of_installations {name : String} {routine : Routine}
    (h : .initializer cls name routine ∈ installations.filterMap id) :
    ∃ ty field answer label, .initializer cls ty field ∈ bodies ∧ field.name = name ∧
      field.init.isSome ∧ ctx.checkInitializer cls ty field = .ok answer ∧
      lowerInitializer fabrics label answer ty = .ok routine := by
  obtain ⟨body, hbody, middle, hchecked, hlowered⟩ := mem_installations hcheck hlower h
  cases body with
  | method owner sig method =>
    obtain ⟨answer, -, heq⟩ := bind_eq_ok.mp hchecked
    cases heq
    obtain ⟨code, -, heq⟩ := bind_eq_ok.mp hlowered
    cases heq
  | initializer owner ty field =>
    obtain ⟨answer, hanswer, heq⟩ := bind_eq_ok.mp hchecked
    cases heq
    rw [lower] at hlowered
    split at hlowered
    case isTrue => cases hlowered
    case isFalse hinit =>
      obtain ⟨code, hcode, heq⟩ := bind_eq_ok.mp hlowered
      cases heq
      obtain ⟨init, hmap, heq⟩ := bind_eq_ok.mp hanswer
      cases heq
      refine ⟨ty, field, _, _, hbody, rfl, ?_, hanswer, hcode⟩
      cases hfield : field.init with
      | some _ => rfl
      | none =>
        rw [hfield] at hmap
        cases hmap
        exact absurd rfl hinit

theorem installations_of_body {sig : MethodSig} {method : MethodDecl}
    (h : .method cls sig method ∈ bodies) :
    ∃ routine, .body cls sig.slot routine ∈ installations.filterMap id := by
  obtain ⟨middle, hmiddle, hchecked⟩ := (mem_of_forall₂ (mapM_eq_ok hcheck)).1 _ h
  obtain ⟨installation, hmem, hlowered⟩ := (mem_of_forall₂ (mapM_eq_ok hlower)).1 _ hmiddle
  obtain ⟨answer, -, heq⟩ := bind_eq_ok.mp hchecked
  cases heq
  obtain ⟨code, -, heq⟩ := bind_eq_ok.mp hlowered
  cases heq
  exact ⟨code, List.mem_filterMap.mpr ⟨_, hmem, rfl⟩⟩

end

end Body

end Attire
