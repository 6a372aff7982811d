import Mathlib.Algebra.Group.Nat.Defs
import Attire.Snapshot.Decode
import Attire.Snapshot.Encode

namespace Attire

open SnapDecode

/-! Numbers have a literal or one of three texts. -/

section

open Float.Model

theorem eq_of_toBits_eq {x y : Float} (h : x.toBits = y.toBits) : x = y := by
  obtain ⟨⟨bits, _⟩⟩ := x
  obtain ⟨⟨bits', _⟩⟩ := y
  cases (h : bits = bits')
  rfl

theorem toNat_exponent (bits : BitVec Format.binary64.numBits) :
    (UnpackedFloat.unpackExponent bits).toNat = bits.toNat / 2 ^ 52 % 2 ^ 11 := by
  simp [UnpackedFloat.unpackExponent, BitVec.extractLsb, Nat.shiftRight_eq_div_pow]

theorem toNat_mantissa (bits : BitVec Format.binary64.numBits) :
    (UnpackedFloat.unpackMantissa bits).toNat = bits.toNat % 2 ^ 52 := by
  simp [UnpackedFloat.unpackMantissa, BitVec.extractLsb]

/-- There is one NaN, and an infinity of either sign. -/
theorem toNat_of_not_isFinite {bits : BitVec Format.binary64.numBits}
    (hvalid : Format.binary64.Valid bits)
    (h : (UnpackedFloat.unpack Format.binary64 bits).isFinite = false) :
    bits.toNat = 0x7ff8000000000000 ∨ bits.toNat = 0x7ff0000000000000 ∨
      bits.toNat = 0xfff0000000000000 := by
  unfold UnpackedFloat.unpack at h
  by_cases hexponent : UnpackedFloat.unpackExponent bits = -1#_
  · by_cases hmantissa : UnpackedFloat.unpackMantissa bits = 0#_
    · have hhigh : bits.toNat / 2 ^ 52 % 2 ^ 11 = 2 ^ 11 - 1 := by
        rw [← toNat_exponent, hexponent]
        decide
      have hlow : bits.toNat % 2 ^ 52 = 0 := by
        rw [← toNat_mantissa, hmantissa]
        decide
      have hlt : bits.toNat < 2 ^ 64 := bits.isLt
      omega
    · rw [hvalid.eq_packedNaN hexponent hmantissa]
      exact .inl (by decide)
  · rw [if_neg hexponent] at h
    by_cases hzero : UnpackedFloat.unpackExponent bits = 0#_
    · rw [if_pos hzero] at h
      by_cases hmantissa : UnpackedFloat.unpackMantissa bits = 0#_
      · rw [dif_pos hmantissa] at h
        cases h
      · rw [dif_neg hmantissa] at h
        cases h
    · rw [if_neg hzero] at h
      cases h

theorem not_isFinite {x : Float} (h : x.isFinite = false) :
    x = 0.0 / 0.0 ∨ x = 1.0 / 0.0 ∨ x = -1.0 / 0.0 := by
  have hbits : ∀ {y : Float}, x.toBits.toNat = y.toBits.toNat → x = y := fun heq =>
    eq_of_toBits_eq (UInt64.toNat_inj.mp heq)
  rcases toNat_of_not_isFinite x.toModel.valid h with h | h | h
  · exact .inl (hbits (h.trans (by decide)))
  · exact .inr (.inl (hbits (h.trans (by decide))))
  · exact .inr (.inr (hbits (h.trans (by decide))))

end

theorem numberText_nan : numberText (0.0 / 0.0) = "NaN" := by
  have hscaled : Scaled.ofFloat? (0.0 / 0.0) = none := by decide
  have hnan : (0.0 / 0.0 : Float).isNaN = true := by decide
  simp only [numberText, NumberLayout.write, hscaled, if_pos hnan]
  rfl

theorem numberText_infinity : numberText (1.0 / 0.0) = "Infinity" := by
  have hscaled : Scaled.ofFloat? (1.0 / 0.0) = none := by decide
  have hnan : ¬(1.0 / 0.0 : Float).isNaN = true := by decide
  have hpositive : ¬(1.0 / 0.0 : Float) < 0.0 := by decide
  simp only [numberText, NumberLayout.write, hscaled, if_neg hnan, if_neg hpositive]
  rfl

theorem numberText_negative : numberText (-1.0 / 0.0) = "-Infinity" := by
  have hscaled : Scaled.ofFloat? (-1.0 / 0.0) = none := by decide
  have hnan : ¬(-1.0 / 0.0 : Float).isNaN = true := by decide
  have hnegative : (-1.0 / 0.0 : Float) < 0.0 := by decide
  simp only [numberText, NumberLayout.write, hscaled, if_neg hnan, if_pos hnegative]
  rfl

/-- Finite numbers have literals; the others have their texts. -/
theorem encodeNumber_cases (x : Float) :
    x.isFinite = true ∧ encodeNumber x = .number (.real x) ∨
    x = 0.0 / 0.0 ∧ encodeNumber x = .string "NaN" ∨
    x = 1.0 / 0.0 ∧ encodeNumber x = .string "Infinity" ∨
    x = -1.0 / 0.0 ∧ encodeNumber x = .string "-Infinity" := by
  unfold encodeNumber
  cases hfinite : x.isFinite with
  | true => exact .inl ⟨rfl, rfl⟩
  | false =>
    rcases not_isFinite hfinite with rfl | rfl | rfl
    · exact .inr (.inl ⟨rfl, congrArg Json.string numberText_nan⟩)
    · exact .inr (.inr (.inl ⟨rfl, congrArg Json.string numberText_infinity⟩))
    · exact .inr (.inr (.inr ⟨rfl, congrArg Json.string numberText_negative⟩))

theorem asNumber_encodeNumber (room : Nat) (x : Float) :
    asNumber room (encodeNumber x) = some x := by
  rcases encodeNumber_cases x with ⟨-, h⟩ | ⟨rfl, h⟩ | ⟨rfl, h⟩ | ⟨rfl, h⟩
  all_goals
    rw [h]
    rfl

theorem sound_encodeNumber (x : Float) (room : Nat) : (encodeNumber x).sound room := by
  unfold encodeNumber
  split <;> rfl

theorem asNumber_text {text : String} (h : text ∉ ["NaN", "Infinity", "-Infinity"]) (room : Nat) :
    asNumber room (.string text) = none := by
  unfold asNumber
  split <;> simp_all

end Attire
