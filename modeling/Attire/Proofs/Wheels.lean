import Attire.Proofs.Identifiers
import Attire.Proofs.Text.Bytes
import Attire.Wheels
import Mathlib.Data.List.Basic
import Mathlib.Data.Nat.Digits.Defs

namespace Attire

/-! The wheels count: identifiers never come twice, and their texts are in the order of their
numbers. -/

namespace Wheels

def numeral (number : Nat) : List Nat := (lowDigits number).reverse

variable {number : Nat}

theorem lowDigits_of_lt (h : number < 36) : lowDigits number = [number] := by
  rw [lowDigits, if_pos (by omega), Nat.mod_eq_of_lt h]

theorem lowDigits_of_le (h : 36 ≤ number) :
    lowDigits number = number % 36 :: lowDigits (number / 36) := by
  rw [lowDigits, if_neg (by omega)]

theorem numeral_of_lt (h : number < 36) : numeral number = [number] := by
  rw [numeral, lowDigits_of_lt h, List.reverse_singleton]

theorem numeral_of_le (h : 36 ≤ number) :
    numeral number = numeral (number / 36) ++ [number % 36] := by
  rw [numeral, lowDigits_of_le h, List.reverse_cons, numeral]

/-- Induction on the digits of a number. -/
@[elab_as_elim]
theorem digitwise {motive : Nat → Prop} (one : ∀ number < 36, motive number)
    (more : ∀ number, 36 ≤ number → motive (number / 36) → motive number) (number : Nat) :
    motive number := by
  induction number using Nat.strongRecOn with
  | ind number ih =>
    by_cases h : number < 36
    · exact one number h
    · exact more number (by omega) (ih _ (by omega))

theorem turn_lowDigits (number : Nat) : turn (lowDigits number) = lowDigits (number + 1) := by
  induction number using Nat.strongRecOn with
  | ind number ih =>
    rw [lowDigits, lowDigits.eq_def (number + 1), turn]
    split
    case isTrue hturn =>
      have hlast : (number + 1) % 36 = number % 36 + 1 := by omega
      have hrest : (number + 1) / 36 = number / 36 := by omega
      rw [hlast, hrest]
    case isFalse hturn =>
      have hlast : (number + 1) % 36 = 0 := by omega
      have hrest : (number + 1) / 36 = number / 36 + 1 := by omega
      rw [hlast, hrest, if_neg (Nat.succ_ne_zero _)]
      by_cases hzero : number / 36 = 0
      · rw [hzero, if_pos rfl, turn, lowDigits_of_lt (by decide)]
      · rw [if_neg hzero, ih _ (by omega)]

theorem increment_numeral (number : Nat) : increment (numeral number) = numeral (number + 1) := by
  rw [increment, numeral, List.reverse_reverse, turn_lowDigits, numeral]

/-- Digits as a numeral has them: at least one, and no leading zero except in `0` itself. -/
structure Canonical (digits : List Nat) : Prop where
  nonempty : digits ≠ []
  small : ∀ digit ∈ digits, digit < 36
  leading : digits.head? = some 0 → digits = [0]

def value (digits : List Nat) : Nat := Nat.ofDigits 36 digits.reverse

theorem value_numeral (number : Nat) : value (numeral number) = number := by
  induction number using digitwise with
  | one number h => simp [value, numeral_of_lt h]
  | more number h ih =>
    rw [value, numeral_of_le h, List.reverse_append, List.reverse_singleton, List.singleton_append,
      Nat.ofDigits_cons, ← value, ih]
    exact Nat.mod_add_div number 36

theorem numeral_ne_nil (number : Nat) : numeral number ≠ [] := by
  rw [numeral, lowDigits]
  simp

theorem numeral_lt (number : Nat) : ∀ digit ∈ numeral number, digit < 36 := by
  induction number using digitwise with
  | one number h => simpa [numeral_of_lt h] using h
  | more number h ih =>
    rw [numeral_of_le h]
    exact List.forall_mem_append.mpr ⟨ih, by simpa using Nat.mod_lt number (by decide)⟩

theorem eq_zero_of_head (number : Nat) (h : (numeral number).head? = some 0) : number = 0 := by
  induction number using digitwise with
  | one number hlt => simpa [numeral_of_lt hlt] using h
  | more number hle ih =>
    rw [numeral_of_le hle, List.head?_append,
      List.head?_eq_some_head (numeral_ne_nil _), Option.some_or,
      ← List.head?_eq_some_head (numeral_ne_nil _)] at h
    have hzero := ih h
    omega

theorem canonical_numeral (number : Nat) : Canonical (numeral number) where
  nonempty := numeral_ne_nil number
  small := numeral_lt number
  leading h := by
    rw [eq_zero_of_head number h]
    exact numeral_of_lt (by decide)

/-! Texts. -/

theorem digitsFrom_eq (number : Nat) : ∀ {steps : Nat} (low : List Char), number < steps →
    Base36.digitsFrom steps number low = (numeral number).map Base36.digitChar ++ low := by
  induction number using digitwise with
  | one number h =>
    rintro (_ | steps) low hsteps
    · exact absurd hsteps (Nat.not_lt_zero _)
    · simp [Base36.digitsFrom, h, numeral_of_lt h, Nat.mod_eq_of_lt h]
  | more number h ih =>
    rintro (_ | steps) low hsteps
    · exact absurd hsteps (Nat.not_lt_zero _)
    · rw [Base36.digitsFrom, if_neg (by omega), ih _ (by omega), numeral_of_le h]
      simp

theorem encode_eq (number : Nat) :
    Base36.encode number = String.ofList ((numeral number).map Base36.digitChar) := by
  rw [Base36.encode, Base36.digits, digitsFrom_eq number [] (Nat.lt_succ_self number),
    List.append_nil]

def digitByte (digit : Nat) : Nat := (Base36.digitChar digit).toNat

theorem bytes_encode (number : Nat) :
    bytes (Base36.encode number) = (numeral number).map digitByte := by
  have hbyte : ∀ digit, digit < 36 → charBytes (Base36.digitChar digit) = [digitByte digit] := by
    decide
  rw [bytes_eq, encode_eq, String.toList_ofList, List.flatMap_map, List.map_eq_flatMap]
  exact List.flatMap_congr fun digit hmem => hbyte digit (numeral_lt number digit hmem)

theorem compare_digitByte {a b : Nat} (ha : a < 36) (hb : b < 36) :
    compare (digitByte a) (digitByte b) = compare a b := by
  have hall : ∀ a < 36, ∀ b < 36, compare (digitByte a) (digitByte b) = compare a b := by decide
  exact hall a ha b hb

/-- Shorter lists first, and lists of one length by the first place where they differ. -/
def shortlex (as bs : List Nat) : Ordering :=
  (compare as.length bs.length).then (compare as bs)

theorem shortlex_map_digitByte {as bs : List Nat} (ha : ∀ digit ∈ as, digit < 36)
    (hb : ∀ digit ∈ bs, digit < 36) :
    shortlex (as.map digitByte) (bs.map digitByte) = shortlex as bs := by
  rw [shortlex, shortlex, List.length_map, List.length_map]
  congr 1
  induction as generalizing bs with
  | nil => cases bs <;> rfl
  | cons a as ih =>
    cases bs with
    | nil => rfl
    | cons b bs =>
      obtain ⟨ha, has⟩ := List.forall_mem_cons.mp ha
      obtain ⟨hb, hbs⟩ := List.forall_mem_cons.mp hb
      rw [List.map_cons, List.map_cons, List.compare_cons_cons, List.compare_cons_cons,
        compare_digitByte ha hb, ih has hbs]

theorem compare_concat {d e : Nat} : ∀ {as bs : List Nat}, as.length = bs.length →
    compare (as ++ [d]) (bs ++ [e]) = (compare as bs).then (compare d e)
  | [], [], _ => by simp [Ordering.then_eq]
  | [], _ :: _, h => nomatch h
  | _ :: _, [], h => nomatch h
  | a :: as, b :: bs, h => by
    rw [List.cons_append, List.cons_append, List.compare_cons_cons, List.compare_cons_cons,
      compare_concat (Nat.succ.inj h), Ordering.then_assoc]

theorem compare_congr {a b c d : Nat} (hlt : a < b ↔ c < d) (heq : a = b ↔ c = d) :
    compare a b = compare c d := by
  change compareOfLessAndEq a b = compareOfLessAndEq c d
  simp only [compareOfLessAndEq, hlt, heq]

/-- The last digits decide only between numerals whose other digits are the same. -/
theorem shortlex_concat (as bs : List Nat) (d e : Nat) :
    shortlex (as ++ [d]) (bs ++ [e]) = (shortlex as bs).then (compare d e) := by
  have hlength : compare (as.length + 1) (bs.length + 1) = compare as.length bs.length :=
    compare_congr (by omega) (by omega)
  rw [shortlex, shortlex, List.length_append, List.length_append, List.length_singleton,
    List.length_singleton, hlength]
  cases horder : compare as.length bs.length with
  | lt | gt => rfl
  | eq => exact compare_concat (Nat.compare_eq_eq.mp horder)

theorem compare_divMod (a b : Nat) :
    (compare (a / 36) (b / 36)).then (compare (a % 36) (b % 36)) = compare a b := by
  cases horder : compare (a / 36) (b / 36) with
  | lt =>
    have hlt := Nat.compare_eq_lt.mp horder
    exact (Nat.compare_eq_lt.mpr (by omega)).symm
  | eq =>
    have heq := Nat.compare_eq_eq.mp horder
    exact compare_congr (by omega) (by omega)
  | gt =>
    have hgt := Nat.compare_eq_gt.mp horder
    exact (Nat.compare_eq_gt.mpr (by omega)).symm

theorem one_lt_length_numeral (h : 36 ≤ number) : 1 < (numeral number).length := by
  have hfront := List.length_pos_of_ne_nil (numeral_ne_nil (number / 36))
  rw [numeral_of_le h, List.length_append]
  exact Nat.lt_add_of_pos_left hfront

/-- Numerals are in the order of their numbers. -/
theorem shortlex_numeral (a b : Nat) : shortlex (numeral a) (numeral b) = compare a b := by
  induction a using digitwise generalizing b with
  | one a ha =>
    by_cases hb : b < 36
    · simp [shortlex, numeral_of_lt ha, numeral_of_lt hb, Ordering.then_eq]
    · have hlonger := one_lt_length_numeral (show 36 ≤ b by omega)
      rw [shortlex, numeral_of_lt ha, List.length_singleton, Nat.compare_eq_lt.mpr hlonger,
        Nat.compare_eq_lt.mpr (show a < b by omega), Ordering.lt_then]
  | more a ha ih =>
    by_cases hb : b < 36
    · have hlonger := one_lt_length_numeral ha
      rw [shortlex, numeral_of_lt hb, List.length_singleton, Nat.compare_eq_gt.mpr hlonger,
        Nat.compare_eq_gt.mpr (show b < a by omega), Ordering.gt_then]
    · rw [numeral_of_le ha, numeral_of_le (Nat.le_of_not_lt hb), shortlex_concat, ih,
        compare_divMod]

end Wheels

namespace Id

theorem compare_label (a b : Id) : compare a.label b.label = compare a b := by
  change Wheels.shortlex (bytes (Base36.encode a.number)) (bytes (Base36.encode b.number)) = _
  rw [Wheels.bytes_encode, Wheels.bytes_encode,
    Wheels.shortlex_map_digitByte (Wheels.numeral_lt _) (Wheels.numeral_lt _),
    Wheels.shortlex_numeral]
  rfl

theorem digits_label (id : Id) : id.label.digits = Wheels.numeral id.number := by
  have hdigits : ∀ digits : List Nat, (∀ digit ∈ digits, digit < 36) →
      (digits.map Base36.digitChar).filterMap Base36.digitValue? = digits := by
    intro digits hsmall
    induction digits with
    | nil => rfl
    | cons digit digits ih =>
      obtain ⟨hfirst, hrest⟩ := List.forall_mem_cons.mp hsmall
      rw [List.map_cons, List.filterMap_cons, Base36.digitValue?_digitChar hfirst, ih hrest]
  rw [label, Label.digits, text, Wheels.encode_eq, String.toList_ofList,
    hdigits _ (Wheels.numeral_lt _)]

end Id

theorem Base36.isSome_valueFrom? : ∀ {cs : List Char} (high : Nat),
    (valueFrom? high cs).isSome = cs.all fun c => (digitValue? c).isSome
  | [], _ => rfl
  | c :: cs, high => by
    cases hdigit : digitValue? c with
    | none => simp [valueFrom?, hdigit]
    | some digit => simp [valueFrom?, hdigit, isSome_valueFrom?]

namespace Label

theorem parse?_eq_ite (text : String) :
    parse? text = if (Base36.decode? text).isSome then some ⟨text⟩ else none := by
  have hzero : charBytes '0' = [48] := by decide
  unfold parse? Base36.decode?
  rw [bytes_eq]
  match text.toList with
  | [] => rfl
  | [c] =>
    by_cases hc : c = '0'
    · subst hc
      rfl
    · simp [hc, Base36.isSome_valueFrom?]
  | c :: d :: rest =>
    by_cases hc : c = '0'
    · subst hc
      simp [hzero, charBytes_ne_nil]
    · simp [hc, Base36.isSome_valueFrom?]

/-- A text is accepted if it is the numeral of some number. -/
theorem parse?_eq (text : String) : parse? text = (Id.ofText? text).map Id.label := by
  rw [parse?_eq_ite, Id.ofText?]
  cases hnumber : Base36.decode? text with
  | none => rfl
  | some number =>
    rw [Option.map_some, Option.map_some, Id.label, Id.text, Base36.encode_of_decode? hnumber]
    rfl

end Label

/-! Sequences of calls. -/

/-- A call of the odometer: for the upcoming identifier, or to advance past the identifier of a
text.  Without such an identifier nothing is asked of it. -/
inductive Call
  | next
  | past (text : String)

namespace Odometer

def after (odometer : Odometer) : Call → Odometer
  | .next => odometer.next.2
  | .past text => ((Id.ofText? text).map odometer.advancePast).getD odometer

def run (odometer : Odometer) (calls : List Call) : Odometer := calls.foldl after odometer

/-- The identifier that a call hands out or advances past. -/
def involved? (odometer : Odometer) : Call → Option Id
  | .next => some odometer.next.1
  | .past text => Id.ofText? text

variable {odometer : Odometer} {id : Id} {call : Call}

theorem upcoming_le_after : odometer.upcoming ≤ (odometer.after call).upcoming := by
  cases call with
  | next => exact Nat.le_succ _
  | past text =>
    cases h : Id.ofText? text with
    | none => simp [after, h]
    | some id => simpa [after, h] using upcoming_le_advancePast

theorem upcoming_le_run (calls : List Call) :
    odometer.upcoming ≤ (odometer.run calls).upcoming := by
  induction calls generalizing odometer with
  | nil => exact Nat.le_refl _
  | cons call calls ih => exact Nat.le_trans upcoming_le_after ih

theorem lt_upcoming_after (h : odometer.involved? call = some id) :
    id.number < (odometer.after call).upcoming := by
  cases call with
  | next =>
    obtain rfl := Option.some.inj h
    exact Nat.lt_succ_self _
  | past text =>
    change Id.ofText? text = some id at h
    rw [after, h]
    exact lt_peek_advancePast

/-- What was handed out or advanced past is below all that is handed out later. -/
theorem lt_upcoming_run {front middle : List Call}
    (h : (odometer.run front).involved? call = some id) :
    id.number < (odometer.run (front ++ call :: middle)).upcoming := by
  rw [run, List.foldl_append, List.foldl_cons]
  exact Nat.lt_of_lt_of_le (lt_upcoming_after h) (upcoming_le_run middle)

end Odometer

namespace Wheels

def after (wheels : Wheels) : Call → Wheels
  | .next => wheels.next.2
  | .past text => ((Label.parse? text).map wheels.advancePast).getD wheels

def run (wheels : Wheels) (calls : List Call) : Wheels := calls.foldl after wheels

/-- The identifier that a call hands out or advances past. -/
def involved? (wheels : Wheels) : Call → Option Label
  | .next => some wheels.next.1
  | .past text => Label.parse? text

/-- The wheels as they stand when the odometer has come to its number. -/
def showing (odometer : Odometer) : Wheels :=
  { digits := numeral odometer.upcoming, minted := odometer.minted }

variable (odometer : Odometer)

theorem startingAt_eq (start : Nat) : startingAt start = showing (Odometer.startingAt start) := rfl

theorem peek_showing : (showing odometer).peek = odometer.peek.label :=
  congrArg Label.mk (encode_eq odometer.upcoming).symm

theorem next_showing :
    (showing odometer).next = (odometer.next.1.label, showing odometer.next.2) := by
  rw [next, peek_showing]
  simp only [showing, increment_numeral]
  rfl

theorem advancePast_showing (id : Id) :
    (showing odometer).advancePast id.label = showing (odometer.advancePast id) := by
  have horder : (compare id.label (showing odometer).peek).isGE ↔ odometer.peek ≤ id := by
    rw [peek_showing, Id.compare_label]
    exact Nat.isGE_compare
  unfold advancePast Odometer.advancePast
  by_cases h : odometer.peek ≤ id
  · rw [if_pos (horder.mpr h), if_pos h, Id.digits_label, increment_numeral]
    rfl
  · rw [if_neg (mt horder.mp h), if_neg h]

theorem after_showing (call : Call) :
    (showing odometer).after call = showing (odometer.after call) := by
  cases call with
  | next => exact congrArg Prod.snd (next_showing odometer)
  | past text =>
    rw [after, Odometer.after, Label.parse?_eq]
    cases Id.ofText? text with
    | none => rfl
    | some id => exact advancePast_showing odometer id

theorem involved?_showing (call : Call) :
    (showing odometer).involved? call = (odometer.involved? call).map Id.label := by
  cases call with
  | next => exact congrArg (some ∘ Prod.fst) (next_showing odometer)
  | past text => exact Label.parse?_eq text

/-- The wheels always show the number that the odometer has come to. -/
theorem run_showing (calls : List Call) :
    (showing odometer).run calls = showing (odometer.run calls) := by
  induction calls generalizing odometer with
  | nil => rfl
  | cons call calls ih =>
    change ((showing odometer).after call).run calls = _
    rw [after_showing, ih]
    rfl

/-- The odometer counts on canonical numerals, whatever it is asked for.  It hands out identifiers
above all those that it handed out or was advanced past before.  Identifiers are in the order of
their numbers, and the texts accepted as identifiers are the numerals. -/
theorem counts :
    (∀ (start : Nat) (calls : List Call),
      let wheels := (startingAt start).run calls
      Canonical wheels.digits ∧
      value wheels.digits = ((Odometer.startingAt start).run calls).upcoming ∧
      wheels.next.1.text = Base36.encode (value wheels.digits) ∧
      value wheels.next.2.digits = value wheels.digits + 1 ∧
      (∀ text, (compare (wheels.after (.past text)).peek wheels.peek).isGE) ∧
      ∀ front call middle, calls = front ++ call :: middle →
        ∀ label ∈ ((startingAt start).run front).involved? call,
          compare label wheels.next.1 = .lt) ∧
    (∀ a b : Nat,
      compare (Label.mk (Base36.encode a)) (Label.mk (Base36.encode b)) = compare a b) ∧
    ∀ text, (Label.parse? text).isSome ↔ ∃ number, text = Base36.encode number := by
  refine ⟨fun start calls => ?_, fun a b => Id.compare_label ⟨a⟩ ⟨b⟩, fun text => ?_⟩
  · have hruns : ∀ calls, (startingAt start).run calls =
        showing ((Odometer.startingAt start).run calls) :=
      fun calls => by rw [startingAt_eq, run_showing]
    dsimp only
    simp only [hruns, next_showing, after_showing, peek_showing, involved?_showing,
      Id.compare_label]
    refine ⟨canonical_numeral _, value_numeral _, ?_, ?_, fun text => ?_, ?_⟩
    · rw [showing, value_numeral]
      rfl
    · rw [showing, showing, value_numeral, value_numeral]
      rfl
    · exact Nat.isGE_compare.mpr Odometer.upcoming_le_after
    · rintro front call middle rfl label hmem
      obtain ⟨id, hid, rfl⟩ := Option.map_eq_some_iff.mp hmem
      rw [Id.compare_label]
      exact Nat.compare_eq_lt.mpr (Odometer.lt_upcoming_run hid)
  · rw [Label.parse?_eq, Option.isSome_map]
    constructor
    · intro h
      obtain ⟨id, hid⟩ := Option.isSome_iff_exists.mp h
      exact ⟨id.number, (Id.text_of_ofText? hid).symm⟩
    · rintro ⟨number, rfl⟩
      exact Option.isSome_of_mem (Id.ofText?_text ⟨number⟩)

end Wheels

end Attire
