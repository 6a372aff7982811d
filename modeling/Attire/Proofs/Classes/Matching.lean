import Attire.Proofs.Agreement
import Attire.Proofs.Classes.Composition
import Attire.Proofs.Classes.Subclasses
import Mathlib.Logic.Relator

namespace Attire

/-! Classes that are composed alike, under whatever numbers they are registered. -/

variable {same other : ClassId → ClassId → Prop}

/-- Types that differ at most in the numbers of classes. -/
inductive Ty.Matches (same : ClassId → ClassId → Prop) : Ty → Ty → Prop
  | num : Matches same .num .num
  | text : Matches same .text .text
  | bool : Matches same .bool .bool
  | void : Matches same .void .void
  | null : Matches same .null .null
  | suggestion : Matches same .suggestion .suggestion
  | object {cls cls' : ClassId} (h : same cls cls') : Matches same (.object cls) (.object cls')
  | array {element element' : Ty} (h : Matches same element element') :
      Matches same (.array element) (.array element')
  | set {element element' : Ty} (h : Matches same element element') :
      Matches same (.set element) (.set element')
  | map {key key' value value' : Ty} (hkey : Matches same key key')
      (hvalue : Matches same value value') : Matches same (.map key value) (.map key' value')
  | tuple {elements elements' : List Ty} (h : List.Forall₂ (Matches same) elements elements') :
      Matches same (.tuple elements) (.tuple elements')

namespace Ty.Matches

mutual

theorem imp (himp : ∀ cls cls', same cls cls' → other cls cls') :
    ∀ {a a' : Ty}, a.Matches same a' → a.Matches other a'
  | _, _, .num => .num
  | _, _, .text => .text
  | _, _, .bool => .bool
  | _, _, .void => .void
  | _, _, .null => .null
  | _, _, .suggestion => .suggestion
  | _, _, .object h => .object (himp _ _ h)
  | _, _, .array h => .array (imp himp h)
  | _, _, .set h => .set (imp himp h)
  | _, _, .map hkey hvalue => .map (imp himp hkey) (imp himp hvalue)
  | _, _, .tuple h => .tuple (impAll himp h)

theorem impAll (himp : ∀ cls cls', same cls cls' → other cls cls') :
    ∀ {as as' : List Ty}, List.Forall₂ (Matches same) as as' → List.Forall₂ (Matches other) as as'
  | _, _, .nil => .nil
  | _, _, .cons h hrest => .cons (imp himp h) (impAll himp hrest)

end

mutual

theorem write_eq {name name' : ClassId → String} {method : String → String → String → String}
    (hname : ∀ cls cls', same cls cls' → name cls = name' cls') :
    ∀ {a a' : Ty}, a.Matches same a' → a.write name method = a'.write name' method
  | _, _, .num | _, _, .text | _, _, .bool | _, _, .void | _, _, .null | _, _, .suggestion => rfl
  | _, _, .object h => hname _ _ h
  | _, _, .array h | _, _, .set h => by simp only [write, write_eq hname h]
  | _, _, .map hkey hvalue => by simp only [write, write_eq hname hkey, write_eq hname hvalue]
  | _, _, .tuple h => by simp only [write, writeAll_eq hname h]

theorem writeAll_eq {name name' : ClassId → String} {method : String → String → String → String}
    (hname : ∀ cls cls', same cls cls' → name cls = name' cls') :
    ∀ {as as' : List Ty}, List.Forall₂ (Matches same) as as' →
      Ty.writeAll name method as = Ty.writeAll name' method as'
  | _, _, .nil => rfl
  | _, _, .cons h hrest => by simp only [writeAll, write_eq hname h, writeAll_eq hname hrest]

end

variable {a a' b b' : Ty}

theorem isNullable_eq (h : a.Matches same a') : a.isNullable = a'.isNullable := by cases h <;> rfl

theorem isValue_eq (h : a.Matches same a') : a.isValue = a'.isValue := by cases h <;> rfl

theorem isPrimitive_eq (h : a.Matches same a') : a.isPrimitive = a'.isPrimitive := by cases h <;> rfl

theorem isObject_eq (h : a.Matches same a') : a.isObject = a'.isObject := by cases h <;> rfl

mutual

theorem same_eq (hunique : Relator.BiUnique same) :
    ∀ {a a' b b' : Ty}, a.Matches same a' → b.Matches same b' → a.same b = a'.same b'
  | _, _, _, _, .num, h | _, _, _, _, .text, h | _, _, _, _, .bool, h | _, _, _, _, .void, h
  | _, _, _, _, .null, h | _, _, _, _, .suggestion, h => by cases h <;> rfl
  | _, _, _, _, .object h, h' => by
    cases h' with
    | object h' => simp only [Ty.same, Relator.rel_eq hunique h h']
    | _ => rfl
  | _, _, _, _, .array h, h' => by
    cases h' with
    | array h' => simp only [Ty.same, same_eq hunique h h']
    | _ => rfl
  | _, _, _, _, .set h, h' => by
    cases h' with
    | set h' => simp only [Ty.same, same_eq hunique h h']
    | _ => rfl
  | _, _, _, _, .map hkey hvalue, h' => by
    cases h' with
    | map hkey' hvalue' =>
      simp only [Ty.same, same_eq hunique hkey hkey', same_eq hunique hvalue hvalue']
    | _ => rfl
  | _, _, _, _, .tuple h, h' => by
    cases h' with
    | tuple h' => simp only [Ty.same, sameAll_eq hunique h h']
    | _ => rfl

theorem sameAll_eq (hunique : Relator.BiUnique same) :
    ∀ {as as' bs bs' : List Ty}, List.Forall₂ (Matches same) as as' →
      List.Forall₂ (Matches same) bs bs' → Ty.sameAll as bs = Ty.sameAll as' bs'
  | _, _, _, _, .nil, h => by cases h <;> rfl
  | _, _, _, _, .cons h hrest, h' => by
    cases h' with
    | cons h' hrest' => simp only [Ty.sameAll, same_eq hunique h h', sameAll_eq hunique hrest hrest']
    | nil => rfl

end

end Ty.Matches

/-- The class hierarchies agree on which of the classes are subclasses. -/
structure Hierarchy.Matches (same : ClassId → ClassId → Prop) (classes classes' : Hierarchy) :
    Prop where
  unique : Relator.BiUnique same
  isSubclass {cls cls' ancestor ancestor' : ClassId} : same cls cls' → same ancestor ancestor' →
    classes.isSubclass cls ancestor = classes'.isSubclass cls' ancestor'

namespace Hierarchy.Matches

variable {classes classes' : Hierarchy} {relation : Relation}

mutual

theorem relates_eq (hclasses : classes.Matches same classes') :
    ∀ {a a' b b' : Ty}, a.Matches same a' → b.Matches same b' →
      a.relates relation classes b = a'.relates relation classes' b'
  | _, _, _, _, .num, h | _, _, _, _, .text, h | _, _, _, _, .bool, h | _, _, _, _, .void, h
  | _, _, _, _, .null, h | _, _, _, _, .suggestion, h => by cases h <;> rfl
  | _, _, _, _, .object h, h' => by
    cases h' with
    | object h' =>
      simp only [Ty.relates, Ty.Matches.same_eq hclasses.unique (.object h) (.object h'),
        hclasses.isSubclass h h', hclasses.isSubclass h' h]
      rfl
    | _ => rfl
  | _, _, _, _, .array h, h' => by
    cases h' with
    | array h' =>
      simp only [Ty.relates, Ty.Matches.same_eq hclasses.unique (.array h) (.array h'),
        relates_eq hclasses h h']
      rfl
    | _ => rfl
  | _, _, _, _, .set h, h' => by
    cases h' with
    | set h' =>
      simp only [Ty.relates, Ty.Matches.same_eq hclasses.unique (.set h) (.set h'),
        relates_eq hclasses h h']
      rfl
    | _ => rfl
  | _, _, _, _, .map hkey hvalue, h' => by
    cases h' with
    | map hkey' hvalue' =>
      simp only [Ty.relates,
        Ty.Matches.same_eq hclasses.unique (.map hkey hvalue) (.map hkey' hvalue'),
        relates_eq hclasses hkey hkey', relates_eq hclasses hvalue hvalue']
      rfl
    | _ => rfl
  | _, _, _, _, .tuple h, h' => by
    cases h' with
    | tuple h' =>
      simp only [Ty.relates, Ty.Matches.same_eq hclasses.unique (.tuple h) (.tuple h'),
        relatesAll_eq hclasses h h']
      rfl
    | _ => rfl

theorem relatesAll_eq (hclasses : classes.Matches same classes') :
    ∀ {as as' bs bs' : List Ty}, List.Forall₂ (Ty.Matches same) as as' →
      List.Forall₂ (Ty.Matches same) bs bs' →
      Ty.relatesAll relation classes as bs = Ty.relatesAll relation classes' as' bs'
  | _, _, _, _, .nil, h => by cases h <;> rfl
  | _, _, _, _, .cons h hrest, h' => by
    cases h' with
    | cons h' hrest' =>
      simp only [Ty.relatesAll, relates_eq hclasses h h', relatesAll_eq hclasses hrest hrest']
    | nil => rfl

end

end Hierarchy.Matches

structure MethodSig.Matches (same : ClassId → ClassId → Prop) (sig sig' : MethodSig) : Prop where
  owner : same sig.owner sig'.owner
  name : sig.name = sig'.name
  mutating : sig.mutating = sig'.mutating
  mutatingThis : sig.mutatingThis = sig'.mutatingThis
  ret : sig.ret.Matches same sig'.ret
  params : List.Forall₂ (Ty.Matches same) sig.params sig'.params

structure FieldInfo.Matches (same : ClassId → ClassId → Prop) (info info' : FieldInfo) : Prop where
  owner : same info.key.owner info'.key.owner
  index : info.key.index = info'.key.index
  name : info.name = info'.name
  ty : info.ty.Matches same info'.ty

structure OwnField.Matches (same : ClassId → ClassId → Prop) (field field' : OwnField) : Prop where
  name : field.name = field'.name
  ty : field.ty.Matches same field'.ty
  span : field.span = field'.span

structure MethodSpec.Matches (same : ClassId → ClassId → Prop) (spec spec' : MethodSpec) : Prop where
  name : spec.name = spec'.name
  params : List.Forall₂ (Ty.Matches same) spec.params spec'.params
  ret : spec.ret.Matches same spec'.ret
  mutating : spec.mutating = spec'.mutating
  mutatingThis : spec.mutatingThis = spec'.mutatingThis
  isOverride : spec.isOverride = spec'.isOverride
  span : spec.span = spec'.span

inductive MemberSpec.Matches (same : ClassId → ClassId → Prop) : MemberSpec → MemberSpec → Prop
  | field {field field' : OwnField} (h : field.Matches same field') :
      Matches same (.field field) (.field field')
  | method {spec spec' : MethodSpec} (h : spec.Matches same spec') :
      Matches same (.method spec) (.method spec')

inductive Entry.Matches {α : Type} (related : α → α → Prop) : Entry α → Entry α → Prop
  | member {value value' : α} (h : related value value') :
      Matches related (.member value) (.member value')
  | conflict : Matches related .conflict .conflict

/-- The classes declare alike; what is installed in them does not count. -/
structure ClassDef.Matches (same : ClassId → ClassId → Prop) (cls cls' : ClassDef) : Prop where
  id : same cls.id cls'.id
  name : cls.name = cls'.name
  parents : List.Forall₂ same cls.parents cls'.parents
  methods : Table.Pairs (Entry.Matches (MethodSig.Matches same)) cls.methods cls'.methods
  fields : Table.Pairs (Entry.Matches (FieldInfo.Matches same)) cls.fields cls'.fields
  ownFields : List.Forall₂ (OwnField.Matches same) cls.ownFields cls'.ownFields
  ownMethods : List.Forall₂ (MethodSig.Matches same) cls.ownMethods cls'.ownMethods

theorem MethodSig.Matches.imp {sig sig' : MethodSig} (h : sig.Matches same sig')
    (himp : ∀ cls cls', same cls cls' → other cls cls') : sig.Matches other sig' :=
  { h with
    owner := himp _ _ h.owner
    ret := h.ret.imp himp
    params := h.params.imp fun _ _ => Ty.Matches.imp himp }

theorem FieldInfo.Matches.imp {info info' : FieldInfo} (h : info.Matches same info')
    (himp : ∀ cls cls', same cls cls' → other cls cls') : info.Matches other info' :=
  { h with
    owner := himp _ _ h.owner
    ty := h.ty.imp himp }

theorem OwnField.Matches.imp {field field' : OwnField} (h : field.Matches same field')
    (himp : ∀ cls cls', same cls cls' → other cls cls') : field.Matches other field' :=
  { h with ty := h.ty.imp himp }

theorem Entry.Matches.imp {α : Type} {related related' : α → α → Prop} {entry entry' : Entry α}
    (h : entry.Matches related entry') (himp : ∀ value value', related value value' →
      related' value value') : entry.Matches related' entry' := by
  cases h with
  | member h => exact .member (himp _ _ h)
  | conflict => exact .conflict

theorem ClassDef.Matches.imp {cls cls' : ClassDef} (h : cls.Matches same cls')
    (himp : ∀ cls cls', same cls cls' → other cls cls') : cls.Matches other cls' where
  id := himp _ _ h.id
  name := h.name
  parents := h.parents.imp himp
  methods := h.methods.imp (fun _ _ h => h) fun _ _ h => h.imp fun _ _ h => h.imp himp
  fields := h.fields.imp (fun _ _ h => h) fun _ _ h => h.imp fun _ _ h => h.imp himp
  ownFields := h.ownFields.imp fun _ _ h => h.imp himp
  ownMethods := h.ownMethods.imp fun _ _ h => h.imp himp

/-- Classes of one number in the first registry and the other one in the second are alike. -/
structure ClassRegistry.Matches (same : ClassId → ClassId → Prop)
    (classes classes' : ClassRegistry) : Prop where
  unique : Relator.BiUnique same
  get? {cls cls' : ClassId} : same cls cls' → ∃ found found', classes.get? cls = some found ∧
    classes'.get? cls' = some found' ∧ found.Matches same found'

namespace ClassRegistry.Matches

variable {classes classes' : ClassRegistry} {cls cls' ancestor ancestor' : ClassId}

theorem parents (h : classes.Matches same classes') (hcls : same cls cls') :
    List.Forall₂ same (classes.parents cls) (classes'.parents cls') := by
  obtain ⟨found, found', hget, hget', hfound⟩ := h.get? hcls
  rw [ClassRegistry.parents_eq hget, ClassRegistry.parents_eq hget']
  exact hfound.parents

theorem className_eq (h : classes.Matches same classes') (hcls : same cls cls') :
    classes.className cls = classes'.className cls' := by
  obtain ⟨found, found', hget, hget', hfound⟩ := h.get? hcls
  simp only [className, hget, hget', hfound.name]

theorem describe_eq (h : classes.Matches same classes') {ty ty' : Ty} (hty : ty.Matches same ty') :
    classes.describe ty = classes'.describe ty' :=
  Ty.Matches.write_eq (fun _ _ hcls => h.className_eq hcls) hty

theorem inherits_iff (h : classes.Matches same classes') (hcls : same cls cls')
    (hancestor : same ancestor ancestor') :
    classes.Inherits cls ancestor ↔ classes'.Inherits cls' ancestor' := by
  constructor
  · intro hpath
    have hforth : ∃ found, same ancestor found ∧ classes'.Inherits cls' found := by
      clear hancestor
      induction hpath with
      | refl => exact ⟨cls', hcls, .refl⟩
      | tail _ hparent ih =>
        obtain ⟨middle, hmiddle, hpath⟩ := ih
        obtain ⟨found, hmem, hfound⟩ := (mem_of_forall₂ (h.parents hmiddle)).1 _ hparent
        exact ⟨found, hfound, hpath.tail hmem⟩
    obtain ⟨found, hfound, hpath⟩ := hforth
    exact h.unique.2 hfound hancestor ▸ hpath
  · intro hpath
    have hback : ∃ found, same found ancestor' ∧ classes.Inherits cls found := by
      clear hancestor
      induction hpath with
      | refl => exact ⟨cls, hcls, .refl⟩
      | tail _ hparent ih =>
        obtain ⟨middle, hmiddle, hpath⟩ := ih
        obtain ⟨found, hmem, hfound⟩ := (mem_of_forall₂ (h.parents hmiddle)).2 _ hparent
        exact ⟨found, hfound, hpath.tail hmem⟩
    obtain ⟨found, hfound, hpath⟩ := hback
    exact h.unique.1 hfound hancestor ▸ hpath

theorem hierarchy (h : classes.Matches same classes') :
    classes.hierarchy.Matches same classes'.hierarchy where
  unique := h.unique
  isSubclass hcls hancestor :=
    Bool.eq_iff_iff.mpr (isSubclass_iff.trans ((h.inherits_iff hcls hancestor).trans
      isSubclass_iff.symm))

end ClassRegistry.Matches

end Attire
