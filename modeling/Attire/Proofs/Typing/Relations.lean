import Attire.Proofs.Classes.Subclasses
import Attire.Proofs.Typing.Contracts

namespace Attire

/-! Laws of the relations between types. -/

namespace Hierarchy

variable {classes : Hierarchy} {size : Nat} {cls middle ancestor : ClassId}

@[simp] theorem isSubclass_self (classes : Hierarchy) (cls : ClassId) :
    classes.isSubclass cls cls := by
  simp [isSubclass]

theorem Counts.isSubclass_trans (h : classes.Counts size) (hfirst : classes.isSubclass cls middle)
    (hsecond : classes.isSubclass middle ancestor) : classes.isSubclass cls ancestor :=
  h.isSubclass_iff.mpr ((h.isSubclass_iff.mp hfirst).trans (h.isSubclass_iff.mp hsecond))

/-- Without cycles, two classes are not subclasses of each other. -/
theorem Counts.isSubclass_antisymm (h : classes.Counts size) (hacyclic : classes.Acyclic)
    (hup : classes.isSubclass cls ancestor) (hdown : classes.isSubclass ancestor cls) :
    cls = ancestor := by
  rcases Relation.reflTransGen_iff_eq_or_transGen.mp (h.isSubclass_iff.mp hup) with heq | hpath
  · exact heq.symm
  · exact absurd (hpath.trans_left (h.isSubclass_iff.mp hdown)) (hacyclic cls)

end Hierarchy

namespace Ty

mutual

/-- The type `null` does not occur in the type. -/
def nullFree : Ty → Bool
  | null => false
  | num | text | bool | void | suggestion | object _ => true
  | array element | set element => nullFree element
  | tuple elements => allNullFree elements
  | map key value => nullFree key && nullFree value
  | method _ _ _ _ ret params => nullFree ret && allNullFree params

def allNullFree : List Ty → Bool
  | [] => true
  | ty :: rest => nullFree ty && allNullFree rest

end

/-- A type whose only subtype is itself: it has no class in it and takes no `null`. -/
def isPlain : Ty → Bool
  | num | text | bool | void | suggestion | method .. => true
  | null | object _ | array _ | tuple _ | map _ _ | set _ => false

variable {classes : Hierarchy} {size : Nat} {a b c : Ty}

theorem same_refl (ty : Ty) : ty.same ty := same_iff.mpr rfl

theorem same_trans (hab : a.same b) (hbc : b.same c) : a.same c :=
  same_iff.mpr ((same_iff.mp hab).trans (same_iff.mp hbc))

/-- What the supertypes of a type look like, by its outermost form. -/
theorem subtype_iff : relates .subtype classes a b ↔
    match a with
    | null => b.isNullable
    | object cls => b = null ∨ ∃ ancestor, b = object ancestor ∧ classes.isSubclass cls ancestor
    | array a => b = null ∨ ∃ element, b = array element ∧ relates .subtype classes a element
    | set a => b = null ∨ ∃ element, b = set element ∧ relates .subtype classes a element
    | map key value => b = null ∨ ∃ key' value', b = map key' value' ∧
        relates .subtype classes key key' ∧ relates .subtype classes value value'
    | tuple as => ∃ bs, b = tuple bs ∧ relatesAll .subtype classes as bs
    | a => a.same b := by
  rw [relates.eq_def]
  cases a <;> cases b <;> simp [same, isNullable]

theorem subtype_plain (ha : a.isPlain) : relates .subtype classes a b ↔ a.same b := by
  cases a with
  | num | text | bool | void | suggestion | method => exact subtype_iff
  | null | object | array | tuple | map | set => cases ha

theorem relates_exact : relates .exact classes a b = a.same b := by
  rw [relates.eq_def]
  rfl

theorem isPlain_of_same (ha : a.isPlain) (h : a.same b) : b.isPlain := by
  cases a <;> cases b <;> simp_all [isPlain, same]

/-- A supertype of a type that takes `null` takes `null`. -/
theorem isNullable_of_subtype (ha : a.isNullable) (h : relates .subtype classes a b) :
    b.isNullable := by
  cases a with
  | null => exact subtype_iff.mp h
  | object => rcases subtype_iff.mp h with rfl | ⟨_, rfl, -⟩ <;> rfl
  | array => rcases subtype_iff.mp h with rfl | ⟨_, rfl, -⟩ <;> rfl
  | map => rcases subtype_iff.mp h with rfl | ⟨_, _, rfl, -⟩ <;> rfl
  | set => rcases subtype_iff.mp h with rfl | ⟨_, rfl, -⟩ <;> rfl
  | _ => cases ha

mutual

theorem subtype_of_same : ∀ {a b : Ty}, a.same b → relates .subtype classes a b
  | .num, _, h | .text, _, h | .bool, _, h | .void, _, h | .suggestion, _, h | .method .., _, h =>
    (subtype_plain rfl).mpr h
  | .null, b, h => by
    cases b <;> simp [same] at h
    rfl
  | .object cls, b, h => by
    cases b <;> simp [same] at h
    exact subtype_iff.mpr (.inr ⟨_, rfl, h ▸ classes.isSubclass_self cls⟩)
  | .array element, b, h => by
    cases b <;> simp [same] at h
    exact subtype_iff.mpr (.inr ⟨_, rfl, subtype_of_same h⟩)
  | .set element, b, h => by
    cases b <;> simp [same] at h
    exact subtype_iff.mpr (.inr ⟨_, rfl, subtype_of_same h⟩)
  | .map key value, b, h => by
    cases b <;> simp [same] at h
    exact subtype_iff.mpr (.inr ⟨_, _, rfl, subtype_of_same h.1, subtype_of_same h.2⟩)
  | .tuple elements, b, h => by
    cases b <;> simp [same] at h
    exact subtype_iff.mpr ⟨_, rfl, subtypes_of_sameAll h⟩

theorem subtypes_of_sameAll : ∀ {as bs : List Ty}, sameAll as bs →
    relatesAll .subtype classes as bs
  | [], bs, h => by
    cases bs <;> simp [sameAll] at h
    simp [relatesAll]
  | a :: as, bs, h => by
    cases bs <;> simp [sameAll] at h
    simp [relatesAll, subtype_of_same h.1, subtypes_of_sameAll h.2]

end

theorem subtype_refl (ty : Ty) : relates .subtype classes ty ty :=
  subtype_of_same (same_refl ty)

mutual

/-- Only a `null` in between would join types that have nothing to do with each other. -/
theorem subtype_trans (hcounts : classes.Counts size) : ∀ {a b c : Ty}, b.nullFree →
    relates .subtype classes a b → relates .subtype classes b c → relates .subtype classes a c
  | .num, _, _, _, hab, hbc | .text, _, _, _, hab, hbc | .bool, _, _, _, hab, hbc
  | .void, _, _, _, hab, hbc | .suggestion, _, _, _, hab, hbc | .method .., _, _, _, hab, hbc => by
    have hsame := (subtype_plain rfl).mp hab
    apply (subtype_plain rfl).mpr
    exact same_trans hsame ((subtype_plain (isPlain_of_same rfl hsame)).mp hbc)
  | .null, b, c, _, hab, hbc =>
    subtype_iff.mpr (isNullable_of_subtype (subtype_iff.mp hab) hbc)
  | .object cls, b, c, hb, hab, hbc => by
    rcases subtype_iff.mp hab with rfl | ⟨middle, rfl, hmiddle⟩
    · cases hb
    rcases subtype_iff.mp hbc with rfl | ⟨ancestor, rfl, hancestor⟩
    · exact subtype_iff.mpr (.inl rfl)
    · exact subtype_iff.mpr (.inr ⟨_, rfl, hcounts.isSubclass_trans hmiddle hancestor⟩)
  | .array element, b, c, hb, hab, hbc => by
    rcases subtype_iff.mp hab with rfl | ⟨middle, rfl, hmiddle⟩
    · cases hb
    have hfree : middle.nullFree := hb
    rcases subtype_iff.mp hbc with rfl | ⟨last, rfl, hlast⟩
    · exact subtype_iff.mpr (.inl rfl)
    · exact subtype_iff.mpr (.inr ⟨_, rfl, subtype_trans hcounts hfree hmiddle hlast⟩)
  | .set element, b, c, hb, hab, hbc => by
    rcases subtype_iff.mp hab with rfl | ⟨middle, rfl, hmiddle⟩
    · cases hb
    have hfree : middle.nullFree := hb
    rcases subtype_iff.mp hbc with rfl | ⟨last, rfl, hlast⟩
    · exact subtype_iff.mpr (.inl rfl)
    · exact subtype_iff.mpr (.inr ⟨_, rfl, subtype_trans hcounts hfree hmiddle hlast⟩)
  | .map key value, b, c, hb, hab, hbc => by
    rcases subtype_iff.mp hab with rfl | ⟨_, _, rfl, hkey, hvalue⟩
    · cases hb
    obtain ⟨hkeyFree, hvalueFree⟩ := Bool.and_eq_true_iff.mp hb
    rcases subtype_iff.mp hbc with rfl | ⟨_, _, rfl, hkey', hvalue'⟩
    · exact subtype_iff.mpr (.inl rfl)
    · exact subtype_iff.mpr (.inr ⟨_, _, rfl, subtype_trans hcounts hkeyFree hkey hkey',
        subtype_trans hcounts hvalueFree hvalue hvalue'⟩)
  | .tuple elements, b, c, hb, hab, hbc => by
    obtain ⟨middle, rfl, hmiddle⟩ := subtype_iff.mp hab
    obtain ⟨last, rfl, hlast⟩ := subtype_iff.mp hbc
    exact subtype_iff.mpr ⟨_, rfl, subtypes_trans hcounts hb hmiddle hlast⟩

theorem subtypes_trans (hcounts : classes.Counts size) : ∀ {as bs cs : List Ty}, allNullFree bs →
    relatesAll .subtype classes as bs → relatesAll .subtype classes bs cs →
    relatesAll .subtype classes as cs
  | [], bs, cs, _, hab, hbc => by
    cases bs <;> simp [relatesAll] at hab
    exact hbc
  | a :: as, bs, cs, hb, hab, hbc => by
    cases bs <;> simp [relatesAll] at hab
    cases cs <;> simp [relatesAll] at hbc
    obtain ⟨hfirst, hrest⟩ := Bool.and_eq_true_iff.mp hb
    simp [relatesAll, subtype_trans hcounts hfirst hab.1 hbc.1,
      subtypes_trans hcounts hrest hab.2 hbc.2]

end

mutual

theorem subtype_antisymm (hcounts : classes.Counts size) (hacyclic : classes.Acyclic) :
    ∀ {a b : Ty}, a.nullFree → b.nullFree → relates .subtype classes a b →
      relates .subtype classes b a → a.same b
  | .num, _, _, _, hab, _ | .text, _, _, _, hab, _ | .bool, _, _, _, hab, _
  | .void, _, _, _, hab, _ | .suggestion, _, _, _, hab, _ | .method .., _, _, _, hab, _ =>
    (subtype_plain rfl).mp hab
  | .null, _, ha, _, _, _ => nomatch ha
  | .object cls, b, _, hb, hab, hba => by
    rcases subtype_iff.mp hab with rfl | ⟨ancestor, rfl, hup⟩
    · cases hb
    have hdown : classes.isSubclass ancestor cls := by
      simpa using subtype_iff.mp hba
    simp [same, hcounts.isSubclass_antisymm hacyclic hup hdown]
  | .array element, b, ha, hb, hab, hba => by
    rcases subtype_iff.mp hab with rfl | ⟨other, rfl, hup⟩
    · cases hb
    have hdown : relates .subtype classes other element := by
      simpa using subtype_iff.mp hba
    have hsame : element.same other := subtype_antisymm hcounts hacyclic ha hb hup hdown
    exact hsame
  | .set element, b, ha, hb, hab, hba => by
    rcases subtype_iff.mp hab with rfl | ⟨other, rfl, hup⟩
    · cases hb
    have hdown : relates .subtype classes other element := by
      simpa using subtype_iff.mp hba
    have hsame : element.same other := subtype_antisymm hcounts hacyclic ha hb hup hdown
    exact hsame
  | .map key value, b, ha, hb, hab, hba => by
    rcases subtype_iff.mp hab with rfl | ⟨key', value', rfl, hkey, hvalue⟩
    · cases hb
    obtain ⟨hkeyFree, hvalueFree⟩ := Bool.and_eq_true_iff.mp ha
    obtain ⟨hkeyFree', hvalueFree'⟩ := Bool.and_eq_true_iff.mp hb
    have hdown : relates .subtype classes key' key ∧ relates .subtype classes value' value := by
      simpa using subtype_iff.mp hba
    exact Bool.and_eq_true_iff.mpr
      ⟨subtype_antisymm hcounts hacyclic hkeyFree hkeyFree' hkey hdown.1,
        subtype_antisymm hcounts hacyclic hvalueFree hvalueFree' hvalue hdown.2⟩
  | .tuple elements, b, ha, hb, hab, hba => by
    obtain ⟨others, rfl, hup⟩ := subtype_iff.mp hab
    have hdown : relatesAll .subtype classes others elements := by
      simpa using subtype_iff.mp hba
    exact subtypes_antisymm hcounts hacyclic ha hb hup hdown

theorem subtypes_antisymm (hcounts : classes.Counts size) (hacyclic : classes.Acyclic) :
    ∀ {as bs : List Ty}, allNullFree as → allNullFree bs → relatesAll .subtype classes as bs →
      relatesAll .subtype classes bs as → sameAll as bs
  | [], bs, _, _, hab, _ => by
    cases bs <;> simp [relatesAll] at hab
    rfl
  | a :: as, bs, ha, hb, hab, hba => by
    cases bs with
    | nil => simp [relatesAll] at hab
    | cons b bs =>
      obtain ⟨haFirst, haRest⟩ := Bool.and_eq_true_iff.mp ha
      obtain ⟨hbFirst, hbRest⟩ := Bool.and_eq_true_iff.mp hb
      obtain ⟨hup, hups⟩ := Bool.and_eq_true_iff.mp hab
      obtain ⟨hdown, hdowns⟩ := Bool.and_eq_true_iff.mp hba
      exact Bool.and_eq_true_iff.mpr
        ⟨subtype_antisymm hcounts hacyclic haFirst hbFirst hup hdown,
          subtypes_antisymm hcounts hacyclic haRest hbRest hups hdowns⟩

end

/-! Casts, and tests for equality. -/

theorem castable_of_plain (ha : a.isPlain) (h : a.same b) : relates .castable classes a b := by
  cases a <;> cases b <;> simp_all [isPlain, relates, same, isNullable, isValue]

mutual

theorem castable_of_subtype : ∀ {a b : Ty}, relates .subtype classes a b →
    relates .castable classes a b
  | .num, _, h | .text, _, h | .bool, _, h | .void, _, h | .suggestion, _, h | .method .., _, h =>
    castable_of_plain rfl ((subtype_plain rfl).mp h)
  | .null, b, h => by
    have hnullable : b.isNullable := subtype_iff.mp h
    rw [relates.eq_def]
    simp [same, hnullable]
  | .object cls, b, h => by
    rcases subtype_iff.mp h with rfl | ⟨ancestor, rfl, hup⟩
    · simp [relates, same, isNullable]
    · simp [relates, same, hup]
  | .array element, b, h => by
    rcases subtype_iff.mp h with rfl | ⟨other, rfl, hup⟩
    · simp [relates, same, isNullable]
    · simp [relates, same, castable_of_subtype hup]
  | .set element, b, h => by
    rcases subtype_iff.mp h with rfl | ⟨other, rfl, hup⟩
    · simp [relates, same, isNullable]
    · simp [relates, same, castable_of_subtype hup]
  | .map key value, b, h => by
    rcases subtype_iff.mp h with rfl | ⟨_, _, rfl, hkey, hvalue⟩
    · simp [relates, same, isNullable]
    · simp [relates, same, castable_of_subtype hkey, castable_of_subtype hvalue]
  | .tuple elements, b, h => by
    obtain ⟨others, rfl, hup⟩ := subtype_iff.mp h
    simp [relates, same, castables_of_subtypes hup]

theorem castables_of_subtypes : ∀ {as bs : List Ty}, relatesAll .subtype classes as bs →
    relatesAll .castable classes as bs
  | [], bs, h => by
    cases bs <;> simp [relatesAll] at h
    simp [relatesAll]
  | a :: as, bs, h => by
    cases bs <;> simp [relatesAll] at h
    simp [relatesAll, castable_of_subtype h.1, castables_of_subtypes h.2]

end

/-- Objects are cast up and down alike. -/
theorem castable_objects_comm (a b : Ty) :
    (a.isObject && b.isObject && relates .castable classes a b) =
      (b.isObject && a.isObject && relates .castable classes b a) := by
  cases a <;> cases b <;> simp [isObject, relates, same, isNullable, Bool.or_comm]

theorem comparable_comm (a b : Ty) : a.comparable b classes = b.comparable a classes := by
  unfold comparable
  rw [castable_objects_comm a b, Bool.and_comm a.isValue b.isValue,
    Bool.or_comm (relates .subtype classes a b)]

theorem comparable_self {ty : Ty} (h : ty.isValue) : ty.comparable ty classes := by
  simp [comparable, h, subtype_refl]

/-- The relations between types of any depth, over any hierarchy.  Being a subtype is reflexive;
it is transitive through every type in which `null` does not occur, and antisymmetric on such types
if no class inherits from itself; `null` is a subtype of just the types that take it.  Exactly equal
types are subtypes, and subtypes can be cast.  Comparability goes both ways, and a value can be
compared with its like. -/
theorem relations_lawful (hcounts : classes.Counts size) :
    (∀ ty, relates .subtype classes ty ty) ∧
    (∀ a b c : Ty, b.nullFree → relates .subtype classes a b → relates .subtype classes b c →
      relates .subtype classes a c) ∧
    (classes.Acyclic → ∀ a b : Ty, a.nullFree → b.nullFree → relates .subtype classes a b →
      relates .subtype classes b a → a.same b) ∧
    (∀ ty, relates .subtype classes null ty = ty.isNullable) ∧
    (∀ a b, relates .exact classes a b → relates .subtype classes a b) ∧
    (∀ a b, relates .subtype classes a b → relates .castable classes a b) ∧
    (∀ a b : Ty, a.comparable b classes = b.comparable a classes) ∧
    ∀ ty : Ty, ty.isValue → ty.comparable ty classes := by
  refine ⟨subtype_refl, fun a b c hb => subtype_trans hcounts hb, fun hacyclic a b ha hb =>
    subtype_antisymm hcounts hacyclic ha hb, fun ty => Bool.eq_iff_iff.mpr subtype_iff,
    fun a b h => ?_, fun a b => castable_of_subtype, comparable_comm, fun ty => comparable_self⟩
  rw [relates_exact] at h
  exact subtype_of_same h

/-! A class with two parents that have a parent in common. -/

def diamondParents : ClassId → List ClassId
  | ⟨1⟩ | ⟨2⟩ => [⟨0⟩]
  | ⟨3⟩ => [⟨1⟩, ⟨2⟩]
  | _ => []

def diamond : Hierarchy where
  parents := diamondParents
  className := ClassId.describe
  edges := 4

theorem diamond_counts : diamond.Counts 4 where
  index_lt
    | ⟨0⟩, _ | ⟨1⟩, _ | ⟨2⟩, _ | ⟨3⟩, _ => by decide
    | ⟨_ + 4⟩, h => absurd rfl h
  edges := by decide

theorem diamond_acyclic : diamond.Acyclic := by
  apply Hierarchy.acyclic_of_rank ClassId.index
  intro cls parent hparent
  match cls with
  | ⟨0⟩ | ⟨_ + 4⟩ => cases hparent
  | ⟨1⟩ | ⟨2⟩ =>
    obtain rfl := List.mem_singleton.mp hparent
    exact Nat.succ_pos _
  | ⟨3⟩ =>
    rcases List.mem_cons.mp hparent with rfl | hparent
    · exact Nat.one_lt_succ_succ 1
    · obtain rfl := List.mem_singleton.mp hparent
      exact Nat.lt_succ_self 2

/-- Arrays follow the classes of their elements up the diamond, and methods are told apart by their
contracts only. -/
theorem diamond_lawful :
    relates .subtype diamond (array (object ⟨3⟩)) (array (object ⟨0⟩)) ∧
    (tuple [object ⟨3⟩, method ⟨1⟩ "f" false true num []]).same
      (tuple [object ⟨3⟩, method ⟨2⟩ "g" false true num []]) ∧
    (tuple [object ⟨3⟩]).comparable (tuple [object ⟨3⟩]) diamond := by
  obtain ⟨-, htrans, hantisymm, -, -, -, -, hcomparable⟩ := relations_lawful diamond_counts
  refine ⟨htrans _ (array (object ⟨1⟩)) _ ?_ ?_ ?_, hantisymm diamond_acyclic _ _ ?_ ?_ ?_ ?_,
    hcomparable _ ?_⟩
  all_goals decide

end Ty

end Attire
