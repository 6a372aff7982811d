import Attire.Number.Shortest
import Mathlib.Algebra.Order.Field.Power
import Mathlib.Tactic.Linarith
import Mathlib.Tactic.LinearCombination
import Mathlib.Tactic.NormNum
import Mathlib.Tactic.Positivity
import Mathlib.Tactic.Ring

namespace Attire

/-! The decimals that round to a double, and the shortest of them. -/

/-- The number that a decimal stands for. -/
def Decimal.value (decimal : Decimal) : ℚ := decimal.digits * (10 : ℚ) ^ decimal.exponent

theorem Decimal.value_trim :
    ∀ (steps : Nat) (decimal : Decimal), (trim steps decimal).value = decimal.value
  | 0, _ => rfl
  | steps + 1, decimal => by
    unfold trim
    split
    case isTrue hdigits =>
      rw [value_trim steps]
      obtain ⟨tens, htens⟩ : ∃ tens, decimal.digits = 10 * tens :=
        ⟨decimal.digits / 10, by omega⟩
      simp only [value, htens, Nat.mul_div_cancel_left tens (show 0 < 10 by decide)]
      rw [zpow_add₀ (by norm_num)]
      push_cast
      ring
    case isFalse => rfl

namespace Rounding

variable {interval : Rounding} {tie : Tie} {exponent : Int} {point : Nat}

/-- The rationals that round to the double, with the ends if these do. -/
def Holds (interval : Rounding) (value : ℚ) : Prop :=
  if interval.closed then
    interval.low * (2 : ℚ) ^ interval.exponent ≤ value ∧
      value ≤ interval.high * (2 : ℚ) ^ interval.exponent
  else
    interval.low * (2 : ℚ) ^ interval.exponent < value ∧
      value < interval.high * (2 : ℚ) ^ interval.exponent

theorem Holds.bounds {value : ℚ} (h : interval.Holds value) :
    interval.low * (2 : ℚ) ^ interval.exponent ≤ value ∧
      value ≤ interval.high * (2 : ℚ) ^ interval.exponent := by
  unfold Holds at h
  split at h
  · exact h
  · exact ⟨h.1.le, h.2.le⟩

theorem Holds.strict {value : ℚ} (h : interval.Holds value) (hopen : interval.closed = false) :
    interval.low * (2 : ℚ) ^ interval.exponent < value ∧
      value < interval.high * (2 : ℚ) ^ interval.exponent := by
  rwa [Holds, if_neg (by simp [hopen])] at h

/-- Intervals that share a rational overlap, and in more than an end that one of them lacks. -/
theorem overlap {other : Rounding} {places : Nat} {value : ℚ}
    (hplaces : other.exponent = interval.exponent + places)
    (h : interval.Holds value) (h' : other.Holds value) :
    other.low * 2 ^ places ≤ interval.high ∧
      (interval.closed = false ∨ other.closed = false →
        other.low * 2 ^ places < interval.high) := by
  have hunit : (0 : ℚ) < 2 ^ interval.exponent := by positivity
  have hlow : (other.low : ℚ) * 2 ^ other.exponent =
      (other.low * 2 ^ places : Nat) * 2 ^ interval.exponent := by
    rw [hplaces, zpow_add₀ (by norm_num), zpow_natCast]
    push_cast
    ring
  refine ⟨?_, fun hopen => ?_⟩
  · have hle := h'.bounds.1.trans h.bounds.2
    rw [hlow] at hle
    exact_mod_cast le_of_mul_le_mul_right hle hunit
  · have hlt : (other.low : ℚ) * 2 ^ other.exponent < interval.high * 2 ^ interval.exponent := by
      rcases hopen with hopen | hopen
      · exact h'.bounds.1.trans_lt (h.strict hopen).2
      · exact (h'.strict hopen).1.trans_le h.bounds.2
    rw [hlow] at hlt
    exact_mod_cast lt_of_mul_lt_mul_right hlt hunit.le

/-- A power is a factor where its exponent is positive, and a divisor where it is negative. -/
theorem cast_power {base : ℚ} (hbase : base ≠ 0) {size : Nat}
    (hsize : (size : ℚ) = base ^ exponent.natAbs) :
    ((if 0 ≤ exponent then size else 1 : Nat) : ℚ) =
      base ^ exponent * (if exponent < 0 then size else 1 : Nat) := by
  by_cases hsign : 0 ≤ exponent
  · obtain ⟨places, rfl⟩ := Int.eq_ofNat_of_zero_le hsign
    simp [hsize]
  · obtain ⟨places, rfl⟩ : ∃ places : Nat, exponent = -places := ⟨exponent.natAbs, by omega⟩
    have hnegative : -(places : Int) < 0 := by omega
    rw [if_neg hsign, if_pos hnegative, hsize]
    simp [hbase]

theorem factors_pos (interval : Rounding) (exponent : Int) :
    0 < (interval.factors exponent).1 ∧ 0 < (interval.factors exponent).2 := by
  have hpick : ∀ (chosen : Prop) [Decidable chosen] (size : Nat), 0 < size →
      0 < if chosen then size else 1 := by
    intro chosen _ size hsize
    split <;> simp [hsize]
  have htens : 0 < Nat.pow 10 exponent.natAbs := Nat.pow_pos (by decide)
  have htwos : 0 < 1 <<< interval.exponent.natAbs := by simp [Nat.one_shiftLeft]
  exact ⟨Nat.mul_pos (hpick _ _ htens) (hpick _ _ htwos),
    Nat.mul_pos (hpick _ _ htwos) (hpick _ _ htens)⟩

/-- The grid of a decimal exponent against the unit of the interval. -/
theorem factors_ratio (interval : Rounding) (exponent : Int) :
    ((interval.factors exponent).1 : ℚ) * 2 ^ interval.exponent =
      (interval.factors exponent).2 * 10 ^ exponent := by
  have htens : ((Nat.pow 10 exponent.natAbs : Nat) : ℚ) = 10 ^ exponent.natAbs := by
    exact_mod_cast rfl
  have htwos : ((1 <<< interval.exponent.natAbs : Nat) : ℚ) = 2 ^ interval.exponent.natAbs := by
    rw [Nat.one_shiftLeft]
    norm_num
  simp only [factors, Nat.cast_mul, cast_power (by norm_num) htens, cast_power (by norm_num) htwos]
  ring

/-- Comparisons of a grid point with a bound of the interval, in whole numbers. -/
theorem scaled_iff (interval : Rounding) (exponent : Int) (point bound : Nat) :
    (bound * (interval.factors exponent).2 < point * (interval.factors exponent).1 ↔
      bound * (2 : ℚ) ^ interval.exponent < point * 10 ^ exponent) ∧
    (point * (interval.factors exponent).1 < bound * (interval.factors exponent).2 ↔
      (point : ℚ) * 10 ^ exponent < bound * 2 ^ interval.exponent) := by
  obtain ⟨hgrid, -⟩ := interval.factors_pos exponent
  have hratio := interval.factors_ratio exponent
  generalize (interval.factors exponent).1 = grid at *
  generalize (interval.factors exponent).2 = binary at *
  have hgrid' : (0 : ℚ) < grid := by exact_mod_cast hgrid
  have htens : (0 : ℚ) < 10 ^ exponent := by positivity
  have hbound : (bound : ℚ) * binary * 10 ^ exponent = bound * 2 ^ interval.exponent * grid := by
    linear_combination -(bound : ℚ) * hratio
  have hpoint : (point : ℚ) * grid * 10 ^ exponent = point * 10 ^ exponent * grid := by ring
  rw [← Nat.cast_lt (α := ℚ), ← Nat.cast_lt (α := ℚ)]
  push_cast
  constructor
  · rw [← mul_lt_mul_iff_left₀ htens, hbound, hpoint, mul_lt_mul_iff_left₀ hgrid']
  · rw [← mul_lt_mul_iff_left₀ htens, hbound, hpoint, mul_lt_mul_iff_left₀ hgrid']

/-- Whether a grid point lies in the interval, as the search tests it. -/
def inside (interval : Rounding) (exponent : Int) (point : Nat) : Bool :=
  let (grid, binary) := interval.factors exponent
  if interval.closed then
    interval.low * binary ≤ point * grid && point * grid ≤ interval.high * binary
  else
    interval.low * binary < point * grid && point * grid < interval.high * binary

theorem inside_iff :
    interval.inside exponent point ↔ interval.Holds (point * 10 ^ exponent) := by
  have hlow := scaled_iff interval exponent point interval.low
  have hhigh := scaled_iff interval exponent point interval.high
  unfold inside Holds
  by_cases hclosed : interval.closed
  · simp only [hclosed, if_true, Bool.and_eq_true, decide_eq_true_eq]
    rw [← not_lt, ← not_lt, hlow.2, hhigh.1, not_lt, not_lt]
  · simp only [hclosed, if_false, Bool.and_eq_true, decide_eq_true_eq, Bool.false_eq_true]
    rw [hlow.1, hhigh.2]

/-- The search answers a neighbour of the value, and none only if both lie outside. -/
theorem nearest?_cases (interval : Rounding) (tie : Tie) (exponent : Int) :
    (∃ point, interval.nearest? tie exponent = some point ∧ interval.inside exponent point) ∨
    (interval.nearest? tie exponent = none ∧ interval.inside exponent
      (interval.value * (interval.factors exponent).2 / (interval.factors exponent).1 + 1) =
        false) := by
  unfold nearest? inside
  cases interval.factors exponent with
  | mk grid binary =>
    dsimp only
    split
    case h_1 hbelow habove =>
      left
      split
      · exact ⟨_, rfl, (Bool.and_eq_true _ _ ▸ hbelow).1⟩
      · exact ⟨_, rfl, habove⟩
    case h_2 hbelow _ => exact .inl ⟨_, rfl, (Bool.and_eq_true _ _ ▸ hbelow).1⟩
    case h_3 habove => exact .inl ⟨_, rfl, habove⟩
    case h_4 habove => exact .inr ⟨rfl, habove⟩

/-- On a fine grid the upper neighbour lies in the interval. -/
theorem inside_above (hlow : interval.low ≤ interval.value)
    (hhigh : interval.value + 2 ≤ interval.high)
    (hfine : (10 : ℚ) ^ exponent < 2 * 2 ^ interval.exponent) :
    interval.inside exponent
      (interval.value * (interval.factors exponent).2 / (interval.factors exponent).1 + 1) := by
  obtain ⟨hgrid, hbinary⟩ := interval.factors_pos exponent
  have hratio := interval.factors_ratio exponent
  unfold inside
  generalize interval.factors exponent = factors at *
  obtain ⟨grid, binary⟩ := factors
  dsimp only at *
  have hsmall : grid < 2 * binary := by
    have hbinary' : (0 : ℚ) < binary := by exact_mod_cast hbinary
    have hscaled : (grid : ℚ) * 2 ^ interval.exponent < 2 * binary * 2 ^ interval.exponent := by
      nlinarith
    exact_mod_cast lt_of_mul_lt_mul_right hscaled (by positivity)
  have hsplit := Nat.div_add_mod (interval.value * binary) grid
  have hrest := Nat.mod_lt (interval.value * binary) hgrid
  have hpoint : (interval.value * binary / grid + 1) * grid =
      grid * (interval.value * binary / grid) + grid := by ring
  have hlow' : interval.low * binary ≤ interval.value * binary := Nat.mul_le_mul_right _ hlow
  have hhigh' : interval.value * binary + 2 * binary ≤ interval.high * binary := by
    rw [← Nat.add_mul]
    exact Nat.mul_le_mul_right _ hhigh
  split
  · simp only [Bool.and_eq_true, decide_eq_true_eq]
    omega
  · simp only [Bool.and_eq_true, decide_eq_true_eq]
    omega

/-- Once the grid becomes fine enough, the search ends at a decimal in the interval. -/
theorem refine_holds (hlow : interval.low ≤ interval.value)
    (hhigh : interval.value + 2 ≤ interval.high) :
    ∀ (steps : Nat) (exponent : Int),
      (10 : ℚ) ^ (exponent - steps) < 2 * 2 ^ interval.exponent →
      interval.Holds (interval.refine tie (steps + 1) exponent).value
  | steps, exponent, hfine => by
    unfold refine
    rcases interval.nearest?_cases tie exponent with ⟨point, hpoint, hinside⟩ | ⟨hnone, houtside⟩
    · rw [hpoint]
      dsimp only
      rw [Decimal.value_trim]
      exact inside_iff.mp hinside
    · rw [hnone]
      match steps with
      | 0 =>
        have hin := inside_above hlow hhigh (by simpa using hfine)
        rw [houtside] at hin
        cases hin
      | steps + 1 =>
        refine refine_holds hlow hhigh steps (exponent - 1) ?_
        convert hfine using 2
        push_cast
        ring

end Rounding

namespace Scaled

variable {number other : Scaled} {value : ℚ} {tie : Tie}

/-- The form in which doubles are read: 53 bits of a coefficient, the highest of them set unless
the exponent is the least one. -/
structure Canonical (number : Scaled) : Prop where
  coefficient_lt : number.coefficient < 2 ^ 53
  exponent_ge : -1074 ≤ number.exponent
  full : -1074 < number.exponent → 2 ^ 52 ≤ number.coefficient

theorem leadingBit_eq : leadingBit = 2 ^ 52 := by decide

/-- The lower end of the interval lies one or two quarters below the value. -/
theorem low_cases (number : Scaled) :
    (number.coefficient = 2 ^ 52 ∧ -1074 < number.exponent ∧
      (Rounding.ofScaled number).low = 4 * number.coefficient - 1) ∨
    (¬(number.coefficient = 2 ^ 52 ∧ -1074 < number.exponent) ∧
      (Rounding.ofScaled number).low = 4 * number.coefficient - 2) := by
  rw [← leadingBit_eq]
  by_cases hedge : number.coefficient = leadingBit ∧ -1074 < number.exponent
  · exact .inl ⟨hedge.1, hedge.2, by simp only [Rounding.ofScaled, if_pos hedge]⟩
  · exact .inr ⟨hedge, by simp only [Rounding.ofScaled, if_neg hedge]⟩

/-- No rational rounds to two doubles: of two neighbours one has an odd coefficient, and lacks the
end that their intervals share. -/
theorem Canonical.apart (h : number.Canonical) (h' : other.Canonical)
    (hless : number.exponent < other.exponent ∨
      number.exponent = other.exponent ∧ number.coefficient < other.coefficient)
    (hholds : (Rounding.ofScaled number).Holds value) :
    ¬(Rounding.ofScaled other).Holds value := by
  intro hholds'
  obtain ⟨places, hplaces⟩ : ∃ places : Nat, other.exponent = number.exponent + places :=
    ⟨(other.exponent - number.exponent).toNat, by omega⟩
  have hshift : other.exponent - 2 = number.exponent - 2 + places := by omega
  obtain ⟨hoverlap, hstrict⟩ := Rounding.overlap hshift hholds hholds'
  have hopen : ∀ {number : Scaled}, number.coefficient % 2 ≠ 0 →
      (Rounding.ofScaled number).closed = false := fun hodd => decide_eq_false hodd
  have hhigh : (Rounding.ofScaled number).high = 4 * number.coefficient + 2 := rfl
  rw [hhigh] at hoverlap hstrict
  have hstrict' : number.coefficient % 2 ≠ 0 ∨ other.coefficient % 2 ≠ 0 →
      (Rounding.ofScaled other).low * 2 ^ places < 4 * number.coefficient + 2 :=
    fun hodd => hstrict (hodd.imp hopen hopen)
  have hlow := low_cases other
  have hsmall := h.coefficient_lt
  have hfull := h'.full
  have hleast := h.exponent_ge
  match places with
  | 0 =>
    rw [pow_zero, Nat.mul_one] at hoverlap hstrict'
    omega
  | places + 1 =>
    have hdouble : (Rounding.ofScaled other).low * 2 ≤
        (Rounding.ofScaled other).low * 2 ^ (places + 1) := by
      refine Nat.mul_le_mul_left _ ?_
      rw [pow_succ]
      exact Nat.le_mul_of_pos_left _ (by positivity)
    omega

/-- A rational rounds to one magnitude. -/
theorem Canonical.unique (h : number.Canonical) (h' : other.Canonical)
    (hholds : (Rounding.ofScaled number).Holds value)
    (hholds' : (Rounding.ofScaled other).Holds value) :
    number.coefficient = other.coefficient ∧ number.exponent = other.exponent := by
  by_contra hne
  by_cases hless : number.exponent < other.exponent ∨
      number.exponent = other.exponent ∧ number.coefficient < other.coefficient
  · exact h.apart h' hless hholds hholds'
  · exact h'.apart h (by omega) hholds' hholds

theorem pow_decimalLength_le {size : Nat} (hsize : 0 < size) :
    10 ^ (decimalLength size - 1) ≤ size := by
  have hpositive : 0 < decimalLength size := Nat.length_toDigits_pos
  by_cases hshort : decimalLength size = 1
  · rw [hshort]
    exact hsize
  · refine Nat.le_of_not_lt fun hlt => ?_
    have hle : decimalLength size ≤ decimalLength size - 1 :=
      (Nat.length_toDigits_le_iff (by decide) (by omega)).mpr hlt
    omega

/-- The highest decimal place of a number. -/
theorem pow_decimalBound_le (hpositive : 0 < number.coefficient) :
    (10 : ℚ) ^ (number.decimalBound - 1) ≤ number.coefficient * 2 ^ number.exponent := by
  unfold decimalBound
  split
  case isTrue hsign =>
    obtain ⟨places, hplaces⟩ := Int.eq_ofNat_of_zero_le hsign
    have hsize : 0 < number.coefficient <<< number.exponent.toNat := by
      simpa [Nat.shiftLeft_eq] using hpositive
    have hle := pow_decimalLength_le hsize
    have hlength : 0 < decimalLength (number.coefficient <<< number.exponent.toNat) :=
      Nat.length_toDigits_pos
    generalize decimalLength (number.coefficient <<< number.exponent.toNat) = length at *
    rw [hplaces, Int.toNat_natCast, Nat.shiftLeft_eq] at hle
    rw [hplaces, zpow_natCast, show (length : Int) - 1 = (length - 1 : Nat) by omega, zpow_natCast]
    exact_mod_cast hle
  case isFalse hsign =>
    obtain ⟨places, hplaces⟩ : ∃ places : Nat, number.exponent = -places :=
      ⟨number.exponent.natAbs, by omega⟩
    dsimp only
    rw [hplaces, neg_neg, Int.toNat_natCast, Nat.shiftRight_eq_div_pow]
    change (10 : ℚ) ^
      ((decimalLength (number.coefficient * 10 ^ places / 2 ^ places) : Int) - places - 1) ≤ _
    have hsize : 0 < number.coefficient * 10 ^ places / 2 ^ places := by
      refine Nat.div_pos ?_ (by positivity)
      calc 2 ^ places ≤ 10 ^ places := Nat.pow_le_pow_left (by decide) places
        _ ≤ number.coefficient * 10 ^ places := Nat.le_mul_of_pos_left _ hpositive
    have hle := (Nat.le_div_iff_mul_le (by positivity)).mp (pow_decimalLength_le hsize)
    have hlength : 0 < decimalLength (number.coefficient * 10 ^ places / 2 ^ places) :=
      Nat.length_toDigits_pos
    generalize decimalLength (number.coefficient * 10 ^ places / 2 ^ places) = length at *
    have hle' : (10 : ℚ) ^ (length - 1) * 2 ^ places ≤ number.coefficient * 10 ^ places := by
      exact_mod_cast hle
    rw [show (length : Int) - places - 1 = (length - 1 : Nat) - (places : Int) by omega,
      zpow_sub₀ (by norm_num), zpow_neg, zpow_natCast, zpow_natCast, zpow_natCast,
      ← div_eq_mul_inv, div_le_div_iff₀ (by positivity) (by positivity)]
    exact hle'

/-- The shortest decimal of a number rounds to it. -/
theorem Canonical.shortest_holds (h : number.Canonical) (hpositive : 0 < number.coefficient) :
    (Rounding.ofScaled number).Holds (number.shortest tie).value := by
  rw [shortest, if_neg hpositive.ne']
  refine Rounding.refine_holds ?_ le_rfl 19 _ ?_
  · rcases low_cases number with ⟨-, -, hlow⟩ | ⟨-, hlow⟩
    all_goals
      rw [hlow]
      exact Nat.sub_le _ _
  · have hbound := pow_decimalBound_le hpositive
    have hsmall : (number.coefficient : ℚ) < 2 ^ 53 := by exact_mod_cast h.coefficient_lt
    have hunit : (0 : ℚ) < 2 ^ number.exponent := by positivity
    change (10 : ℚ) ^ (number.decimalBound - 1 - (19 : Int)) < 2 * 2 ^ (number.exponent - 2)
    rw [zpow_sub₀ (by norm_num), zpow_sub₀ (by norm_num) number.exponent, div_lt_iff₀ (by positivity)]
    norm_num
    nlinarith

end Scaled

end Attire
