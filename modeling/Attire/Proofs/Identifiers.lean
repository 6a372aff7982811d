import Attire.Id
import Mathlib.Data.List.Induction
import Mathlib.Data.Nat.Basic

namespace Attire

/-! Identifiers are read back from the text that shows them. -/

namespace Base36

theorem digitValue?_digitChar : ∀ {digit : Nat}, digit < 36 →
    digitValue? (digitChar digit) = some digit := by
  decide

theorem digitChar_ne_zero : ∀ {digit : Nat}, digit < 36 → digit ≠ 0 → digitChar digit ≠ '0' := by
  decide

theorem valueFrom?_digitsFrom :
    ∀ {steps number : Nat} {low : List Char}, number < steps →
      valueFrom? 0 (digitsFrom steps number low) = valueFrom? number low
  | steps + 1, number, low, hsteps => by
    have hdigit := digitValue?_digitChar (Nat.mod_lt number (show 36 > 0 by decide))
    unfold digitsFrom
    by_cases hsmall : number < 36
    · rw [Nat.mod_eq_of_lt hsmall] at hdigit ⊢
      simp [hsmall, valueFrom?, hdigit]
    · have hhigh : number / 36 < steps := by omega
      have hwhole : 36 * (number / 36) + number % 36 = number := Nat.div_add_mod number 36
      simp [hsmall, valueFrom?_digitsFrom hhigh, valueFrom?, hdigit, hwhole]

theorem digitsFrom_head :
    ∀ {steps number : Nat} (low : List Char), number < steps → number ≠ 0 →
      ∃ first rest, digitsFrom steps number low = first :: rest ∧ first ≠ '0'
  | steps + 1, number, low, hsteps, hpositive => by
    unfold digitsFrom
    by_cases hsmall : number < 36
    · exact ⟨_, _, if_pos hsmall, digitChar_ne_zero (Nat.mod_lt _ (by decide))
        (by rwa [Nat.mod_eq_of_lt hsmall])⟩
    · simp only [if_neg hsmall]
      exact digitsFrom_head _ (by omega) (by omega)

theorem decode?_encode (number : Nat) : decode? (encode number) = some number := by
  have hvalue : valueFrom? 0 (digits number) = some number :=
    valueFrom?_digitsFrom (Nat.lt_succ_self number)
  by_cases hzero : number = 0
  · subst hzero
    rfl
  · obtain ⟨first, rest, hdigits, hfirst⟩ :=
      digitsFrom_head [] (Nat.lt_succ_self number) hzero
    have hcharacters : (encode number).toList = first :: rest :=
      String.toList_ofList.trans hdigits
    change digits number = _ at hdigits
    rw [decode?, hcharacters]
    split
    case h_1 heq => cases heq
    case h_2 heq => exact absurd (List.cons.inj heq).1 hfirst
    case h_3 => rw [← hdigits, hvalue]

theorem digitChar_of_digitValue? {c : Char} {digit : Nat} (h : digitValue? c = some digit) :
    digit < 36 ∧ digitChar digit = c := by
  unfold digitValue? at h
  split at h
  case isTrue hrange =>
    cases h
    have hlow : 48 ≤ c.toNat := hrange.1
    have hhigh : c.toNat ≤ 57 := hrange.2
    refine ⟨by omega, ?_⟩
    rw [digitChar, if_pos (by omega), Nat.add_sub_cancel' hlow, Char.ofNat_toNat]
  case isFalse =>
    split at h
    case isTrue hrange =>
      cases h
      have hlow : 97 ≤ c.toNat := hrange.1
      have hhigh : c.toNat ≤ 122 := hrange.2
      refine ⟨by omega, ?_⟩
      rw [digitChar, if_neg (by omega), Nat.add_sub_cancel' (by omega), Char.ofNat_toNat]
    case isFalse => cases h

theorem valueFrom?_append {high : Nat} {c : Char} : ∀ {front : List Char},
    valueFrom? high (front ++ [c]) = (valueFrom? high front).bind fun value =>
      (digitValue? c).map fun digit => 36 * value + digit
  | [] => by
    cases hdigit : digitValue? c <;> simp [valueFrom?, hdigit]
  | first :: rest => by
    cases hfirst : digitValue? first with
    | none => simp [valueFrom?, hfirst]
    | some digit =>
      simp only [List.cons_append, valueFrom?, hfirst, Option.bind_some]
      exact valueFrom?_append

/-- Numerals without leading zeros are those of positive numbers. -/
theorem digitsFrom_of_valueFrom? {cs : List Char} (hnonempty : cs ≠ [])
    (hleading : cs.head? ≠ some '0') {number : Nat} (h : valueFrom? 0 cs = some number) :
    0 < number ∧ ∀ {steps : Nat} (low : List Char), number < steps →
      digitsFrom steps number low = cs ++ low := by
  induction cs using List.reverseRecOn generalizing number with
  | nil => exact absurd rfl hnonempty
  | append_singleton front c ih =>
    rw [valueFrom?_append] at h
    obtain ⟨high, hhigh, h⟩ := Option.bind_eq_some_iff.mp h
    obtain ⟨digit, hdigit, rfl⟩ := Option.map_eq_some_iff.mp h
    obtain ⟨hsmall, hchar⟩ := digitChar_of_digitValue? hdigit
    rcases front.eq_nil_or_concat with rfl | ⟨_, _, hfront⟩
    · obtain rfl : 0 = high := Option.some.inj hhigh
      have hpositive : digit ≠ 0 := by
        rintro rfl
        exact hleading (congrArg some hchar.symm)
      refine ⟨by omega, fun {steps} low hsteps => ?_⟩
      obtain ⟨steps, rfl⟩ : ∃ fewer, steps = fewer + 1 := ⟨steps - 1, by omega⟩
      simp [digitsFrom, hsmall, Nat.mod_eq_of_lt hsmall, hchar]
    · have hne : front ≠ [] := by simp [hfront]
      rw [List.head?_append, List.head?_eq_some_head hne, Option.some_or,
        ← List.head?_eq_some_head hne] at hleading
      obtain ⟨hpositive, hdigits⟩ := ih hne hleading hhigh
      refine ⟨by omega, fun {steps} low hsteps => ?_⟩
      obtain ⟨steps, rfl⟩ : ∃ fewer, steps = fewer + 1 := ⟨steps - 1, by omega⟩
      have hlast : (36 * high + digit) % 36 = digit := by omega
      have hrest : (36 * high + digit) / 36 = high := by omega
      rw [digitsFrom, if_neg (by omega), hlast, hrest, hchar, hdigits _ (by omega)]
      simp

/-- Every number has a single numeral. -/
theorem encode_of_decode? {text : String} {number : Nat} (h : decode? text = some number) :
    encode number = text := by
  refine String.toList_inj.mp (String.toList_ofList.trans ?_)
  unfold decode? at h
  generalize text.toList = cs at h ⊢
  split at h
  case h_1 => cases h
  case h_2 => cases h
  case h_3 hnonempty hleading =>
    by_cases hzero : cs.head? = some '0'
    · obtain ⟨rest, rfl⟩ := List.head?_eq_some_iff.mp hzero
      cases rest with
      | nil =>
        cases h
        rfl
      | cons second rest => exact absurd rfl (hleading second rest)
    · obtain ⟨-, hdigits⟩ := digitsFrom_of_valueFrom? hnonempty hzero h
      exact (hdigits [] (Nat.lt_succ_self number)).trans (List.append_nil cs)

end Base36

namespace Id

theorem ofText?_text (id : Id) : Id.ofText? id.text = some id := by
  rw [Id.ofText?, Id.text, Base36.decode?_encode]
  rfl

theorem text_of_ofText? {text : String} {id : Id} (h : Id.ofText? text = some id) :
    id.text = text := by
  obtain ⟨number, hnumber, rfl⟩ := Option.map_eq_some_iff.mp h
  exact Base36.encode_of_decode? hnumber

theorem text_injective {a b : Id} (h : a.text = b.text) : a = b :=
  Option.some.inj (by rw [← ofText?_text a, h, ofText?_text b])

end Id

/-! The odometer only moves on. -/

namespace Odometer

variable {odometer : Odometer} {id : Id}

theorem upcoming_le_advancePast : odometer.upcoming ≤ (odometer.advancePast id).upcoming := by
  unfold advancePast
  split
  case isTrue hle => exact Nat.le_succ_of_le hle
  case isFalse => exact le_refl _

theorem lt_peek_advancePast : id < (odometer.advancePast id).peek := by
  unfold advancePast
  split
  case isTrue => exact Nat.lt_succ_self id.number
  case isFalse hle => exact Nat.lt_of_not_le hle

theorem minted_advancePast : (odometer.advancePast id).minted = odometer.minted := by
  unfold advancePast
  split <;> rfl

end Odometer

end Attire
