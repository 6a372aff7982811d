import Attire.Number.Layout
import Attire.Number.Read
import Attire.Proofs.Number.Shortest
import Attire.Proofs.Snapshot.Numerals
import Mathlib.Data.List.TakeWhile

namespace Attire

/-! Different numbers have different texts. -/

namespace Scaled

variable {x y : Float} {number : Scaled}

/-- A double as its sign, its exponent bits and its fraction bits. -/
theorem ofFloat?_eq_some (h : ofFloat? x = some number) :
    ∃ biased fraction : Nat, biased < 2047 ∧ fraction < 2 ^ 52 ∧
      x.toBits.toNat = (if number.negative then 2 ^ 63 else 0) + biased * 2 ^ 52 + fraction ∧
      (biased = 0 ∧ number.coefficient = fraction ∧ number.exponent = -1074 ∨
        biased ≠ 0 ∧ number.coefficient = 2 ^ 52 + fraction ∧
          number.exponent = biased - 1075) := by
  have hlt : x.toBits.toNat < 2 ^ 64 := x.toBits.toNat_lt
  unfold ofFloat? at h
  rw [leadingBit_eq, show signBit = 2 ^ 63 by decide] at h
  generalize x.toBits.toNat = bits at *
  refine ⟨bits / 2 ^ 52 % 2048, bits % 2 ^ 52, ?_⟩
  dsimp only at h
  split at h
  · cases h
  · split at h
    case isTrue hzero =>
      cases h
      refine ⟨by omega, by omega, ?_, .inl ⟨hzero, rfl, rfl⟩⟩
      simp only [decide_eq_true_eq]
      split <;> omega
    case isFalse hnormal =>
      cases h
      refine ⟨by omega, by omega, ?_, .inr ⟨hnormal, rfl, rfl⟩⟩
      simp only [decide_eq_true_eq]
      split <;> omega

theorem ofFloat?_canonical (h : ofFloat? x = some number) : number.Canonical := by
  obtain ⟨biased, fraction, hbiased, hfraction, -, hparts⟩ := ofFloat?_eq_some h
  constructor <;> omega

theorem eq_of_ofFloat? (h : ofFloat? x = some number) (h' : ofFloat? y = some number) : x = y := by
  obtain ⟨biased, fraction, _, _, hbits, hparts⟩ := ofFloat?_eq_some h
  obtain ⟨biased', fraction', _, _, hbits', hparts'⟩ := ofFloat?_eq_some h'
  exact eq_of_toBits_eq (UInt64.toNat_inj.mp (by omega))

open Float.Model in
/-- Only NaN and the infinities have no such form. -/
theorem ofFloat?_eq_none (h : ofFloat? x = none) :
    x = 0.0 / 0.0 ∨ x = 1.0 / 0.0 ∨ x = -1.0 / 0.0 := by
  refine not_isFinite ?_
  have hbiased : x.toBits.toNat / 2 ^ 52 % 2 ^ 11 = 2 ^ 11 - 1 := by
    unfold ofFloat? at h
    rw [leadingBit_eq] at h
    dsimp only at h
    split at h
    · assumption
    · split at h <;> cases h
  let bits : BitVec Format.binary64.numBits := x.toModel.toBits.toBitVec
  have hexponent : UnpackedFloat.unpackExponent bits = -1#_ := by
    refine BitVec.eq_of_toNat_eq ((toNat_exponent bits).trans (hbiased.trans ?_))
    decide
  change (UnpackedFloat.unpack Format.binary64 bits).isFinite = false
  unfold UnpackedFloat.unpack
  rw [if_pos hexponent]
  split <;> rfl

end Scaled

namespace NumberLayout

/-- The number that a text of digits with a point among them denotes. -/
def valueOf (text : List Char) : ℚ :=
  let whole := text.takeWhile Char.isDigit
  let fraction := (text.dropWhile Char.isDigit).drop 1
  Nat.ofDigitChars 10 (whole ++ fraction) 0 / 10 ^ fraction.length

theorem valueOf_whole {digits : List Char} (hdigits : ∀ c ∈ digits, c.isDigit) :
    valueOf digits = Nat.ofDigitChars 10 digits 0 := by
  have htake : digits.takeWhile Char.isDigit = digits := List.takeWhile_eq_self_iff.mpr hdigits
  have hdrop : digits.dropWhile Char.isDigit = [] := List.dropWhile_eq_nil_iff.mpr hdigits
  simp [valueOf, htake, hdrop]

theorem valueOf_point {whole fraction : List Char} (hwhole : ∀ c ∈ whole, c.isDigit) :
    valueOf (whole ++ '.' :: fraction) =
      Nat.ofDigitChars 10 (whole ++ fraction) 0 / 10 ^ fraction.length := by
  have htake : ('.' :: fraction).takeWhile Char.isDigit = [] := rfl
  have hdrop : ('.' :: fraction).dropWhile Char.isDigit = '.' :: fraction := rfl
  simp only [valueOf, List.takeWhile_append_of_pos hwhole, List.dropWhile_append_of_pos hwhole,
    htake, hdrop, List.append_nil, List.drop_succ_cons, List.drop_zero]

/-- Digits with points among them, and a digit first. -/
def Numeral (text : List Char) : Prop :=
  (∃ first rest, text = first :: rest ∧ first.isDigit) ∧ ∀ c ∈ text, c.isDigit ∨ c = '.'

theorem Numeral.append {front back : List Char} (hnonempty : front ≠ [])
    (hfront : ∀ c ∈ front, c.isDigit) (hback : ∀ c ∈ back, c.isDigit ∨ c = '.') :
    Numeral (front ++ back) := by
  obtain ⟨first, rest, rfl⟩ := List.exists_cons_of_ne_nil hnonempty
  refine ⟨⟨first, rest ++ back, rfl, hfront first (by simp)⟩, fun c hmem => ?_⟩
  rcases List.mem_append.mp hmem with hmem | hmem
  · exact .inl (hfront c hmem)
  · exact hback c hmem

theorem isDigit_of_mem_zeros {count : Nat} {c : Char} (h : c ∈ zeros count) : c.isDigit := by
  rw [List.eq_of_mem_replicate h]
  rfl

section

variable {digits : List Char} (hdigits : ∀ c ∈ digits, c.isDigit)
include hdigits

theorem append_zeros_plain (hnonempty : digits ≠ []) (places : Nat) :
    Numeral (digits ++ zeros places) ∧
      valueOf (digits ++ zeros places) = Nat.ofDigitChars 10 digits 0 * (10 : ℚ) ^ places := by
  have hall : ∀ c ∈ digits ++ zeros places, c.isDigit := fun c hmem =>
    (List.mem_append.mp hmem).elim (hdigits c) isDigit_of_mem_zeros
  rw [valueOf_whole hall, Nat.ofDigitChars_append, zeros, Nat.ofDigitChars_replicate_zero]
  refine ⟨.append hnonempty hdigits fun c hmem => .inl (isDigit_of_mem_zeros hmem), ?_⟩
  push_cast
  ring

theorem point_inside_plain {places : Nat} (hinside : places < digits.length) :
    let text := digits.take (digits.length - places) ++
      '.' :: digits.drop (digits.length - places)
    Numeral text ∧ valueOf text = Nat.ofDigitChars 10 digits 0 / (10 : ℚ) ^ places := by
  have hwhole : ∀ c ∈ digits.take (digits.length - places), c.isDigit := fun c hmem =>
    hdigits c (List.mem_of_mem_take hmem)
  dsimp only
  rw [valueOf_point hwhole, List.take_append_drop, List.length_drop,
    show digits.length - (digits.length - places) = places by omega]
  refine ⟨.append (fun hnil => ?_) hwhole fun c hmem => ?_, rfl⟩
  · have hlength := congrArg List.length hnil
    rw [List.length_take, List.length_nil] at hlength
    omega
  · rcases List.mem_cons.mp hmem with rfl | hmem
    · exact .inr rfl
    · exact .inl (hdigits c (List.mem_of_mem_drop hmem))

theorem point_before_plain {places : Nat} (hlength : digits.length ≤ places) :
    let text := '0' :: '.' :: zeros (places - digits.length) ++ digits
    Numeral text ∧ valueOf text = Nat.ofDigitChars 10 digits 0 / (10 : ℚ) ^ places := by
  have hfraction : ∀ c ∈ zeros (places - digits.length) ++ digits, c.isDigit := fun c hmem =>
    (List.mem_append.mp hmem).elim isDigit_of_mem_zeros (hdigits c)
  have hwhole : ∀ c ∈ ['0'], c.isDigit := List.forall_mem_singleton.mpr rfl
  have htext : '0' :: '.' :: zeros (places - digits.length) ++ digits =
      ['0'] ++ '.' :: (zeros (places - digits.length) ++ digits) := rfl
  have hplaces : (zeros (places - digits.length) ++ digits).length = places := by
    rw [List.length_append, zeros, List.length_replicate]
    omega
  have hzeros : ['0'] ++ (zeros (places - digits.length) ++ digits) =
      List.replicate (places - digits.length + 1) '0' ++ digits := by
    rw [List.replicate_succ]
    rfl
  dsimp only
  rw [htext, valueOf_point hwhole, hplaces, hzeros, Nat.ofDigitChars_append,
    Nat.ofDigitChars_replicate_zero, Nat.mul_zero]
  refine ⟨.append (by simp) hwhole fun c hmem => ?_, rfl⟩
  rcases List.mem_cons.mp hmem with rfl | hmem
  · exact .inr rfl
  · exact .inl (hfraction c hmem)

theorem writePositional_plain (hnonempty : digits ≠ []) (exponent : Int) :
    Numeral (plain.writePositional digits exponent).toList ∧
      valueOf (plain.writePositional digits exponent).toList =
        Nat.ofDigitChars 10 digits 0 * (10 : ℚ) ^ exponent := by
  unfold writePositional
  by_cases hsign : 0 ≤ exponent
  · obtain ⟨places, rfl⟩ := Int.eq_ofNat_of_zero_le hsign
    have hsuffix : plain.wholeSuffix.toList = [] := rfl
    rw [if_pos hsign, String.toList_append, String.toList_ofList, Int.toNat_natCast, hsuffix,
      List.append_nil, zpow_natCast]
    exact append_zeros_plain hdigits hnonempty places
  · obtain ⟨places, rfl⟩ : ∃ places : Nat, exponent = -places := ⟨exponent.natAbs, by omega⟩
    rw [if_neg hsign, neg_neg, Int.toNat_natCast, zpow_neg, zpow_natCast, ← div_eq_mul_inv]
    by_cases hinside : places < digits.length
    · rw [if_pos hinside, String.toList_ofList]
      exact point_inside_plain hdigits hinside
    · rw [if_neg hinside, String.toList_ofList]
      exact point_before_plain hdigits (Nat.le_of_not_lt hinside)

end

theorem writeMagnitude_plain (decimal : Decimal) :
    Numeral (plain.writeMagnitude decimal).toList ∧
      valueOf (plain.writeMagnitude decimal).toList = decimal.value := by
  unfold writeMagnitude
  by_cases hzero : decimal.digits = 0
  · have hdigit : ∀ c ∈ ['0'], c.isDigit := List.forall_mem_singleton.mpr rfl
    rw [if_pos hzero, Decimal.value, hzero, Nat.cast_zero, zero_mul]
    change Numeral ['0'] ∧ valueOf ['0'] = 0
    rw [valueOf_whole hdigit]
    exact ⟨.append (by simp) hdigit (List.forall_mem_nil _), by norm_num [Nat.ofDigitChars]⟩
  · rw [if_neg hzero]
    dsimp only
    have hall : ∀ c ∈ Nat.toDigits 10 decimal.digits, c.isDigit := fun c hmem =>
      Nat.isDigit_of_mem_toDigits (by decide) (by decide) hmem
    have hwritten := writePositional_plain hall Nat.toDigits_ne_nil decimal.exponent
    rw [Nat.ofDigitChars_ten_toDigits] at hwritten
    exact hwritten

end NumberLayout

/-- Distinct magnitudes have shortest decimals of distinct values. -/
theorem Scaled.Canonical.eq_of_shortest {number other : Scaled} {tie : Tie}
    (h : number.Canonical) (h' : other.Canonical)
    (hvalue : (number.shortest tie).value = (other.shortest tie).value) :
    number.coefficient = other.coefficient ∧ number.exponent = other.exponent := by
  have hpositive : ∀ {number : Scaled}, number.Canonical → 0 < number.coefficient →
      0 < (number.shortest tie).value := by
    intro number h hcoefficient
    have hlow : 0 < (Rounding.ofScaled number).low := by
      rcases Scaled.low_cases number with ⟨-, -, hlow⟩ | ⟨-, hlow⟩ <;> omega
    refine lt_of_lt_of_le ?_ (h.shortest_holds hcoefficient).bounds.1
    positivity
  have hzero : ∀ {number : Scaled}, number.coefficient = 0 → (number.shortest tie).value = 0 := by
    intro number hcoefficient
    rw [Scaled.shortest, if_pos hcoefficient]
    exact zero_mul _
  have hfull := h.full
  have hfull' := h'.full
  have hleast := h.exponent_ge
  have hleast' := h'.exponent_ge
  rcases Nat.eq_zero_or_pos number.coefficient with hnone | hsome
  · rcases Nat.eq_zero_or_pos other.coefficient with hnone' | hsome'
    · omega
    · exact absurd (hvalue.symm.trans (hzero hnone)) (hpositive h' hsome').ne'
  · rcases Nat.eq_zero_or_pos other.coefficient with hnone' | hsome'
    · exact absurd (hvalue.trans (hzero hnone')) (hpositive h hsome).ne'
    · have hholds : (Rounding.ofScaled other).Holds (other.shortest tie).value :=
        h'.shortest_holds hsome'
      rw [← hvalue] at hholds
      exact h.unique h' (h.shortest_holds hsome) hholds

theorem numberText_finite {x : Float} {number : Scaled} (h : Scaled.ofFloat? x = some number) :
    (numberText x).toList = (if number.negative then ['-'] else []) ++
      (NumberLayout.plain.writeMagnitude (number.shortest .above)).toList := by
  simp only [numberText, NumberLayout.write, h, String.toList_append]
  split <;> rfl

/-- A number has a numeral, or its text is a word, which is read back. -/
theorem numberText_cases (x : Float) :
    (∃ number, Scaled.ofFloat? x = some number) ∨
    numberText x ∈ ["NaN", "Infinity", "-Infinity"] ∧ numberOfText? (numberText x) = some x := by
  cases hscaled : Scaled.ofFloat? x with
  | some number => exact .inl ⟨number, rfl⟩
  | none =>
    right
    rcases Scaled.ofFloat?_eq_none hscaled with rfl | rfl | rfl
    · rw [numberText_nan]
      exact ⟨by simp, rfl⟩
    · rw [numberText_infinity]
      exact ⟨by simp, rfl⟩
    · rw [numberText_negative]
      exact ⟨by simp, rfl⟩

theorem numberText_finite_ne {x : Float} {number : Scaled} {word : String}
    (h : Scaled.ofFloat? x = some number) (hword : word ∈ ["NaN", "Infinity", "-Infinity"]) :
    numberText x ≠ word := by
  intro heq
  obtain ⟨⟨⟨first, rest, hmagnitude, hfirst⟩, -⟩, -⟩ :=
    NumberLayout.writeMagnitude_plain (number.shortest .above)
  have htext := numberText_finite h
  rw [hmagnitude, heq] at htext
  simp only [List.mem_cons, List.not_mem_nil, or_false] at hword
  rcases hword with rfl | rfl | rfl <;> cases hnegative : number.negative <;>
    rw [hnegative] at htext <;> cases htext <;> cases hfirst

/-- The text of a number begins with a digit, a sign or the capital of a word, and has no marks but
signs and points. -/
theorem numberText_chars (x : Float) :
    (∃ first rest, (numberText x).toList = first :: rest ∧
      (first.isDigit ∨ first ∈ ['-', 'N', 'I'])) ∧
      ∀ c ∈ (numberText x).toList, c.isAlphanum ∨ c = '.' ∨ c = '-' := by
  rcases numberText_cases x with ⟨number, hnumber⟩ | ⟨hword, -⟩
  · obtain ⟨⟨⟨first, rest, hmagnitude, hfirst⟩, hall⟩, -⟩ :=
      NumberLayout.writeMagnitude_plain (number.shortest .above)
    have hchars : ∀ c ∈ first :: rest, c.isAlphanum ∨ c = '.' ∨ c = '-' := fun c hmem => by
      rcases hall c (hmagnitude ▸ hmem) with hdigit | hpoint
      · exact .inl (by simp [Char.isAlphanum, hdigit])
      · exact .inr (.inl hpoint)
    rw [numberText_finite hnumber, hmagnitude]
    cases number.negative with
    | false => exact ⟨⟨first, rest, rfl, .inl hfirst⟩, hchars⟩
    | true =>
      refine ⟨⟨'-', first :: rest, rfl, .inr (by simp)⟩, fun c hmem => ?_⟩
      rcases List.mem_cons.mp hmem with rfl | hmem
      · exact .inr (.inr rfl)
      · exact hchars c hmem
  · simp only [List.mem_cons, List.not_mem_nil, or_false] at hword
    rcases hword with hword | hword | hword
    all_goals
      rw [hword]
      refine ⟨⟨_, _, rfl, by decide⟩, fun c hmem => ?_⟩
      have hmark := List.all_eq_true (p := fun c => c.isAlphanum || c == '.' || c == '-')
        |>.mp (by decide) c hmem
      simpa [or_assoc] using hmark

theorem eq_of_finite {x y : Float} {number other : Scaled} (h : Scaled.ofFloat? x = some number)
    (h' : Scaled.ofFloat? y = some other) (heq : numberText x = numberText y) : x = y := by
  have htext := numberText_finite h
  rw [heq, numberText_finite h'] at htext
  obtain ⟨⟨⟨first, rest, hmagnitude, hfirst⟩, -⟩, hvalue⟩ :=
    NumberLayout.writeMagnitude_plain (number.shortest .above)
  obtain ⟨⟨⟨first', rest', hmagnitude', hfirst'⟩, -⟩, hvalue'⟩ :=
    NumberLayout.writeMagnitude_plain (other.shortest .above)
  -- a sign is no digit, so the signs agree before the magnitudes do
  have hparts : other.negative = number.negative ∧ first' :: rest' = first :: rest := by
    rw [hmagnitude, hmagnitude'] at htext
    cases hnegative : number.negative <;> cases hnegative' : other.negative <;>
      rw [hnegative, hnegative'] at htext
    · exact ⟨rfl, htext⟩
    · cases htext
      cases hfirst
    · cases htext
      cases hfirst'
    · exact ⟨rfl, (List.cons.inj htext).2⟩
  rw [hmagnitude] at hvalue
  rw [hmagnitude', hparts.2] at hvalue'
  obtain ⟨hcoefficient, hexponent⟩ := (Scaled.ofFloat?_canonical h).eq_of_shortest
    (Scaled.ofFloat?_canonical h') (hvalue.symm.trans hvalue')
  refine Scaled.eq_of_ofFloat? h (h'.trans (congrArg some ?_))
  obtain ⟨negative, coefficient, exponent⟩ := number
  cases hparts.1
  cases hcoefficient
  cases hexponent
  rfl

/-- The text of a number tells the number, also which zero it is. -/
theorem numberText_injective : Function.Injective numberText := by
  intro x y heq
  rcases numberText_cases x with ⟨number, hnumber⟩ | ⟨hword, hread⟩
  · rcases numberText_cases y with ⟨other, hother⟩ | ⟨hword', -⟩
    · exact eq_of_finite hnumber hother heq
    · exact absurd heq (numberText_finite_ne hnumber hword')
  · rcases numberText_cases y with ⟨other, hother⟩ | ⟨-, hread'⟩
    · exact absurd heq.symm (numberText_finite_ne hother hword)
    · rw [heq] at hread
      exact Option.some.inj (hread.symm.trans hread')

end Attire
