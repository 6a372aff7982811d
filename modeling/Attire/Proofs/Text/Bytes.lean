import Attire.Text.Bytes
import Mathlib.Data.Nat.Basic

namespace Attire

/-! The order of texts is the order of their bytes. -/

def charBytes (c : Char) : List Nat := (String.utf8EncodeChar c).map UInt8.toNat

theorem bytes_eq (text : String) : bytes text = text.toList.flatMap charBytes := by
  have hstored : text.toUTF8 = text.toList.utf8Encode := String.utf8Encode_toList.symm
  rw [bytes, hstored, List.utf8Encode, List.toList_data_toByteArray, List.map_flatMap]
  rfl

/-- The bytes of a character by its code. -/
theorem charBytes_cases (c : Char) :
    (charBytes c = [c.toNat] ∧ c.toNat < 0x80) ∨
    (charBytes c = [0xc0 + c.toNat / 0x40, 0x80 + c.toNat % 0x40] ∧
      0x80 ≤ c.toNat ∧ c.toNat < 0x800) ∨
    (charBytes c = [0xe0 + c.toNat / 0x1000, 0x80 + c.toNat / 0x40 % 0x40,
        0x80 + c.toNat % 0x40] ∧ 0x800 ≤ c.toNat ∧ c.toNat < 0x10000) ∨
    (charBytes c = [0xf0 + c.toNat / 0x40000, 0x80 + c.toNat / 0x1000 % 0x40,
        0x80 + c.toNat / 0x40 % 0x40, 0x80 + c.toNat % 0x40] ∧
      0x10000 ≤ c.toNat ∧ c.toNat < 0x110000) := by
  have hmax : c.toNat < 0x110000 := by
    have hvalid : c.toNat < 0xd800 ∨ 0xdfff < c.toNat ∧ c.toNat < 0x110000 := c.valid
    omega
  have hcode : c.val.toNat = c.toNat := rfl
  unfold charBytes String.utf8EncodeChar
  simp only [hcode]
  by_cases h1 : c.toNat ≤ 0x7f
  · refine .inl ⟨?_, by omega⟩
    simp [h1]
    omega
  by_cases h2 : c.toNat ≤ 0x7ff
  · refine .inr (.inl ⟨?_, by omega, by omega⟩)
    simp [h1, h2]
    omega
  by_cases h3 : c.toNat ≤ 0xffff
  · refine .inr (.inr (.inl ⟨?_, by omega, by omega⟩))
    simp [h1, h2, h3]
    omega
  · refine .inr (.inr (.inr ⟨?_, by omega, by omega⟩))
    simp [h1, h2, h3]
    omega

theorem charBytes_ne_nil (c : Char) : charBytes c ≠ [] := by
  rcases charBytes_cases c with ⟨h, -⟩ | ⟨h, -⟩ | ⟨h, -⟩ | ⟨h, -⟩ <;> simp [h]

/-- A smaller character comes first, whatever follows it. -/
theorem compare_charBytes_of_lt {c d : Char} (h : c < d) (x y : List Nat) :
    compare (charBytes c ++ x) (charBytes d ++ y) = .lt := by
  have hlt : c.toNat < d.toNat := h
  rcases charBytes_cases c with ⟨hc, hc'⟩ | ⟨hc, hc'⟩ | ⟨hc, hc'⟩ | ⟨hc, hc'⟩ <;>
    rcases charBytes_cases d with ⟨hd, hd'⟩ | ⟨hd, hd'⟩ | ⟨hd, hd'⟩ | ⟨hd, hd'⟩ <;>
    rw [hc, hd] <;>
    simp only [List.cons_append, List.nil_append, List.compare_cons_cons,
      Ordering.then_eq_lt, Nat.compare_eq_lt, Nat.compare_eq_eq] <;>
    omega

theorem compare_append_left (front x y : List Nat) :
    compare (front ++ x) (front ++ y) = compare x y := by
  induction front with
  | nil => rfl
  | cons byte front ih =>
    rw [List.cons_append, List.cons_append, List.compare_cons_cons, ih, Std.compare_self,
      Ordering.eq_then]

theorem compare_bytes_of_lt {a b : String} (h : a < b) : compare (bytes a) (bytes b) = .lt := by
  have hlex : a.toList < b.toList := h
  rw [bytes_eq, bytes_eq]
  generalize a.toList = cs at hlex
  generalize b.toList = ds at hlex
  induction hlex with
  | @nil c ds =>
    obtain ⟨byte, rest, hbytes⟩ := List.exists_cons_of_ne_nil (charBytes_ne_nil c)
    rw [List.flatMap_cons, hbytes]
    rfl
  | rel h => exact compare_charBytes_of_lt h _ _
  | cons _ ih => exact (compare_append_left _ _ _).trans ih

/-- Texts compare as their bytes do. -/
theorem compare_bytes (a b : String) : compare (bytes a) (bytes b) = compare a b := by
  change _ = compareOfLessAndEq a b
  unfold compareOfLessAndEq
  split
  case isTrue h => exact compare_bytes_of_lt h
  case isFalse hle =>
    split
    case isTrue h => rw [h, Std.compare_self]
    case isFalse hne =>
      have hlt : b < a :=
        String.not_le.mp fun h => hne (String.le_antisymm h (String.not_lt.mp hle))
      exact Std.OrientedCmp.gt_of_lt (compare_bytes_of_lt hlt)

end Attire
