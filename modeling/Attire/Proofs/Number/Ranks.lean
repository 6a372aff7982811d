import Attire.Proofs.Snapshot.Numerals
import Attire.Value.Key
import Mathlib.Algebra.Group.Int.Defs

namespace Attire

/-! The canonical order of numbers, over their patterns of 64 bits. -/

/-- The exponent bits are all set, and of the fraction bits some. -/
def NaNPattern (bits : UInt64) : Prop := 0x7ff0000000000000 < bits.toNat % 2 ^ 63

instance (bits : UInt64) : Decidable (NaNPattern bits) :=
  inferInstanceAs (Decidable (0x7ff0000000000000 < bits.toNat % 2 ^ 63))

/-- The place of a pattern among the signed whole numbers: from zero on the patterns without a
sign, and below zero those with a sign, in reverse. -/
def signedPlace (bits : UInt64) : Int :=
  if bits.toNat < 2 ^ 63 then bits.toNat else 2 ^ 63 - 1 - bits.toNat

/-- Patterns by their signed places, with those of NaN behind all others. -/
def patternOrder (a b : UInt64) : Ordering :=
  match decide (NaNPattern a), decide (NaNPattern b) with
  | true, true => .eq
  | true, false => .gt
  | false, true => .lt
  | false, false => compare (signedPlace a) (signedPlace b)

def patternRank (bits : UInt64) : Nat :=
  if NaNPattern bits then 2 ^ 64 else (signedPlace bits + 2 ^ 63).toNat

variable {x y : Float}

/-- There is a single NaN. -/
theorem eq_nan_of_isNaN (h : x.isNaN) : x = 0.0 / 0.0 := by
  have hfinite : x.isFinite = false := by
    change (x.toModel.unpack).isNaN = true at h
    change (x.toModel.unpack).isFinite = false
    generalize x.toModel.unpack = parts at *
    cases parts <;> first | rfl | cases h
  rcases not_isFinite hfinite with rfl | rfl | rfl
  · rfl
  · exact absurd h (by decide)
  · exact absurd h (by decide)

open Float.Model in
theorem isNaN_iff : x.isNaN ↔ NaNPattern x.toBits := by
  constructor
  · intro h
    rw [eq_nan_of_isNaN h]
    decide
  · intro h
    let bits : BitVec Format.binary64.numBits := x.toModel.toBits.toBitVec
    have hnan : 0x7ff0000000000000 < bits.toNat % 2 ^ 63 := h
    have hexponent : UnpackedFloat.unpackExponent bits = -1#_ := by
      refine BitVec.eq_of_toNat_eq ((toNat_exponent bits).trans ?_)
      change _ = 2 ^ 11 - 1
      omega
    have hmantissa : UnpackedFloat.unpackMantissa bits ≠ 0#_ := by
      intro hzero
      have hlow := toNat_mantissa bits
      rw [hzero] at hlow
      change 0 = _ at hlow
      have hhigh := toNat_exponent bits
      rw [hexponent] at hhigh
      change 2 ^ 11 - 1 = _ at hhigh
      omega
    change (UnpackedFloat.unpack Format.binary64 bits).isNaN = true
    unfold UnpackedFloat.unpack
    rw [if_pos hexponent, if_neg hmantissa]
    rfl

theorem numberRank_eq (x : Float) : numberRank x = patternRank x.toBits := by
  have hlt := x.toBits.toNat_lt
  unfold numberRank patternRank
  by_cases hnan : NaNPattern x.toBits
  · rw [if_pos (isNaN_iff.mpr hnan), if_pos hnan]
    rfl
  · rw [if_neg (mt isNaN_iff.mp hnan), if_neg hnan, show Scaled.signBit = 2 ^ 63 by decide,
      show UInt64.size = 2 ^ 64 by decide]
    dsimp only
    unfold signedPlace
    split <;> split <;> omega

theorem signedPlace_bounds (bits : UInt64) :
    -2 ^ 63 ≤ signedPlace bits ∧ signedPlace bits < 2 ^ 63 := by
  have hlt := bits.toNat_lt
  unfold signedPlace
  split <;> omega

theorem signedPlace_injective {a b : UInt64} (h : signedPlace a = signedPlace b) : a = b := by
  have ha := a.toNat_lt
  have hb := b.toNat_lt
  refine UInt64.toNat_inj.mp ?_
  unfold signedPlace at h
  split at h <;> split at h <;> omega

theorem compare_patternRank (a b : UInt64) :
    compare (patternRank a) (patternRank b) = patternOrder a b := by
  have ha := signedPlace_bounds a
  have hb := signedPlace_bounds b
  unfold patternRank patternOrder
  by_cases hnan : NaNPattern a <;> by_cases hnan' : NaNPattern b
  · simp [hnan, hnan']
  · simp only [hnan, hnan', if_true, if_false, decide_true, decide_false]
    exact Nat.compare_eq_gt.mpr (by omega)
  · simp only [hnan, hnan', if_true, if_false, decide_true, decide_false]
    exact Nat.compare_eq_lt.mpr (by omega)
  · simp only [hnan, hnan', if_false, decide_false]
    rcases Int.lt_trichotomy (signedPlace a) (signedPlace b) with h | h | h
    · rw [Int.compare_eq_lt.mpr h, Nat.compare_eq_lt.mpr (by omega)]
    · rw [h, Int.compare_eq_eq.mpr rfl, Nat.compare_eq_eq.mpr rfl]
    · rw [Int.compare_eq_gt.mpr h, Nat.compare_eq_gt.mpr (by omega)]

/-- Two patterns have one rank if both are of NaN, or if they are the same. -/
theorem patternRank_eq_iff {a b : UInt64} :
    patternRank a = patternRank b ↔ NaNPattern a ∧ NaNPattern b ∨ a = b := by
  have ha := signedPlace_bounds a
  have hb := signedPlace_bounds b
  unfold patternRank
  constructor
  · intro h
    split at h <;> split at h
    · exact .inl ⟨‹_›, ‹_›⟩
    · omega
    · omega
    · exact .inr (signedPlace_injective (by omega))
  · rintro (⟨hnan, hnan'⟩ | rfl)
    · rw [if_pos hnan, if_pos hnan']
    · rfl

end Attire
