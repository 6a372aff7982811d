import Attire.Value.Key
import Mathlib.Data.Nat.Basic

namespace Attire

/-! The canonical order of keys is a linear order. -/

namespace Id

theorem ext {a b : Id} (h : a.number = b.number) : a = b := by
  cases a
  cases b
  cases h
  rfl

theorem compare_eq (a b : Id) : compare a b = compare a.number b.number := rfl

instance : Std.TransOrd Id := inferInstanceAs (Std.TransCmp (compareOn Id.number))

instance : Std.LawfulEqOrd Id where
  eq_of_compare h := ext (Std.LawfulEqOrd.eq_of_compare h)

end Id

namespace MapKey

def number : MapKey → Nat
  | bool value => value.toNat
  | num rank => rank
  | ref id => id.number
  | _ => 0

def content : MapKey → String
  | text content | encoded content => content
  | _ => ""

theorem compare_eq (a b : MapKey) : compare a b =
    compareLex (compareOn kind) (compareLex (compareOn number) (compareOn content)) a b := by
  change order a b = _
  cases a <;> cases b
  case ref.ref a b => simp [order, kind, number, content, compareLex, compareOn, Id.compare_eq]
  all_goals
    first
    | rfl
    | simp [order, kind, number, content, compareLex, compareOn]

instance : Std.TransOrd MapKey := by
  have heq : (compare : MapKey → MapKey → Ordering) =
      compareLex (compareOn kind) (compareLex (compareOn number) (compareOn content)) := by
    funext a b
    exact compare_eq a b
  rw [Std.TransOrd, heq]
  infer_instance

instance : Std.LawfulEqOrd MapKey where
  eq_of_compare {a b} h := by
    rw [compare_eq] at h
    simp only [compareLex, compareOn, Ordering.then_eq_eq, Std.LawfulEqOrd.compare_eq_iff_eq] at h
    obtain ⟨hkind, hnumber, hcontent⟩ := h
    cases a <;> cases b
    case bool.bool a b => cases a <;> cases b <;> first | rfl | cases hnumber
    case ref.ref a b => exact congrArg ref (Id.ext hnumber)
    all_goals simp_all [kind, number, content]

end MapKey

end Attire
