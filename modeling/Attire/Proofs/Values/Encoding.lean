import Attire.Json.Literal
import Attire.Proofs.Identifiers
import Attire.Proofs.Number.Ranks
import Attire.Proofs.Number.Texts
import Attire.Text.Quoted
import Attire.Value.Key

namespace Attire.Quoted

/-! A quoted text is read back, and ends at its own closing quote. -/

open Json

theorem hexValue?_hexDigit : ∀ {digit : Nat}, digit < 16 → hexValue? (hexDigit digit) = some digit := by
  decide

/-- A character stands for itself, or has a short escape, or a long one. -/
theorem escape_cases (c : Char) :
    (escape c = [c] ∧ c ≠ '"' ∧ c ≠ '\\' ∧ 32 ≤ c.toNat) ∨
    (∃ short, escape c = ['\\', short] ∧ short ≠ 'u' ∧ shortEscape? short = some c) ∨
    (escape c = ['\\', 'u', '0', '0', hexDigit (c.toNat / 16), hexDigit (c.toNat % 16)] ∧
      c.toNat < 32) := by
  have hcode : ∀ {code : Nat}, c.toNat = code → Char.ofNat code = c := by
    rintro _ rfl
    exact Char.ofNat_toNat c
  unfold escape
  split
  case isTrue h => exact .inr (.inl ⟨_, rfl, by decide, congrArg some h.symm⟩)
  split
  case isTrue h => exact .inr (.inl ⟨_, rfl, by decide, congrArg some h.symm⟩)
  split
  case isTrue h => exact .inr (.inl ⟨_, rfl, by decide, congrArg some (hcode h)⟩)
  split
  case isTrue h => exact .inr (.inl ⟨_, rfl, by decide, congrArg some (hcode h)⟩)
  split
  case isTrue h => exact .inr (.inl ⟨_, rfl, by decide, congrArg some h.symm⟩)
  split
  case isTrue h => exact .inr (.inl ⟨_, rfl, by decide, congrArg some h.symm⟩)
  split
  case isTrue h => exact .inr (.inl ⟨_, rfl, by decide, congrArg some h.symm⟩)
  split
  case isTrue h => exact .inr (.inr ⟨rfl, h⟩)
  case isFalse hquote hslash _ _ _ _ _ h => exact .inl ⟨rfl, hquote, hslash, by omega⟩

/-- A character is read back from what stands for it. -/
theorem readPieces_escape (c : Char) (rest : List Char) :
    readPieces (escape c ++ rest) =
      (readPieces rest).map fun (pieces, rest) => (.char c :: pieces, rest) := by
  rcases escape_cases c with ⟨h, hquote, hslash, hprintable⟩ | ⟨short, h, hshort, hread⟩ |
    ⟨h, hcontrol⟩
  · rw [h]
    simp [readPieces, hslash, Nat.not_lt.mpr hprintable]
  · rw [h]
    simp [readPieces, hshort, hread]
    cases readPieces rest <;> rfl
  · rw [h]
    have hzero : hexValue? '0' = some 0 := rfl
    have hhigh := hexValue?_hexDigit (show c.toNat / 16 < 16 by omega)
    have hlow := hexValue?_hexDigit (Nat.mod_lt c.toNat (show 0 < 16 by decide))
    have hcode : c.toNat / 16 * 16 + c.toNat % 16 = c.toNat := by omega
    have hpiece : unitPiece c.toNat = .char c := by
      rw [unitPiece, if_neg (by omega), Char.ofNat_toNat]
    simp [readPieces, hzero, hhigh, hlow, hcode, hpiece]
    cases readPieces rest <;> rfl

theorem readPieces_flatMap (text rest : List Char) :
    readPieces (text.flatMap escape ++ '"' :: rest) = some (text.map .char, rest) := by
  induction text with
  | nil => rfl
  | cons c text ih =>
    rw [List.flatMap_cons, List.append_assoc, readPieces_escape, ih]
    rfl

/-- A quoted text ends at its own closing quote. -/
theorem quote_separates {a b : String} {rest rest' : List Char}
    (h : (quote a).toList ++ rest = (quote b).toList ++ rest') : a = b ∧ rest = rest' := by
  simp only [quote, String.toList_ofList, encode, List.cons_append, List.append_assoc,
    List.nil_append, List.cons.injEq, true_and] at h
  have hread := readPieces_flatMap a.toList rest
  rw [h, readPieces_flatMap] at hread
  obtain ⟨hpieces, hrest⟩ := Prod.mk.inj (Option.some.inj hread)
  have htext := (List.map_inj_right fun _ _ heq => TextPiece.char.inj heq).mp hpieces
  exact ⟨String.toList_inj.mp htext.symm, hrest.symm⟩

end Attire.Quoted

namespace Attire

/-! Values are told from their canonical texts, up to the identifiers of entities. -/

namespace Base36

theorem isAlphanum_digitChar : ∀ {digit : Nat}, digit < 36 → (digitChar digit).isAlphanum := by
  decide

theorem isAlphanum_digitsFrom : ∀ {steps number : Nat} {low : List Char},
    (∀ c ∈ low, c.isAlphanum) → ∀ c ∈ digitsFrom steps number low, c.isAlphanum
  | 0, _, _, hlow => hlow
  | steps + 1, number, low, hlow => by
    have hdigits : ∀ c ∈ digitChar (number % 36) :: low, c.isAlphanum := by
      intro c hmem
      rcases List.mem_cons.mp hmem with rfl | hmem
      · exact isAlphanum_digitChar (Nat.mod_lt _ (by decide))
      · exact hlow c hmem
    unfold digitsFrom
    dsimp only
    split
    · exact hdigits
    · exact isAlphanum_digitsFrom hdigits

end Base36

theorem eq_of_same {x y : Float} (h : x.isNaN ∧ y.isNaN ∨ x.toBits = y.toBits) : x = y := by
  rcases h with ⟨hx, hy⟩ | h
  · rw [eq_nan_of_isNaN hx, eq_nan_of_isNaN hy]
  · exact eq_of_toBits_eq h

theorem same_of_numberRank_eq {x y : Float} (h : numberRank x = numberRank y) :
    x.isNaN ∧ y.isNaN ∨ x.toBits = y.toBits := by
  rw [numberRank_eq, numberRank_eq, patternRank_eq_iff] at h
  exact h.imp_left fun ⟨hx, hy⟩ => ⟨isNaN_iff.mpr hx, isNaN_iff.mpr hy⟩

namespace Value

/-- A character that ends an item of a tuple. -/
def Ends (c : Char) : Prop := c = ',' ∨ c = ']'

/-- What may follow the text of a value: nothing, or the end of an item. -/
def Closed (rest : List Char) : Prop := ∀ c ∈ rest.head?, Ends c

/-- The kind of a value by the first character of its text.  Numbers have many. -/
def kindOf (first : Char) : Nat :=
  if first = 'n' then 0
  else if first = 't' ∨ first = 'f' then 1
  else if first = '"' then 3
  else if first = '#' then 4
  else if first = '[' then 5
  else if first = 's' then 6
  else if first = ',' ∨ first = ']' then 7
  else 2

def kind : Value → Nat
  | null => 0
  | bool _ => 1
  | num _ => 2
  | text _ => 3
  | object _ | array _ | map _ | set _ => 4
  | tuple _ => 5
  | suggestion _ _ => 6

section

variable {value : Value}

theorem eq_null (h : value.kind = 0) : value = .null := by
  cases value <;> first | rfl | cases h

theorem exists_bool (h : value.kind = 1) : ∃ flag, value = .bool flag := by
  cases value <;> first | exact ⟨_, rfl⟩ | cases h

theorem exists_num (h : value.kind = 2) : ∃ number, value = .num number := by
  cases value <;> first | exact ⟨_, rfl⟩ | cases h

theorem exists_text (h : value.kind = 3) : ∃ content, value = .text content := by
  cases value <;> first | exact ⟨_, rfl⟩ | cases h

theorem exists_ref (h : value.kind = 4) :
    ∃ ref, value.ref? = some ref ∧ value.encode = "#" ++ ref.id.text := by
  cases value <;> first | exact ⟨_, rfl, by rw [encode]⟩ | cases h

theorem exists_tuple (h : value.kind = 5) : ∃ items, value = .tuple items := by
  cases value <;> first | exact ⟨_, rfl⟩ | cases h

theorem exists_suggestion (h : value.kind = 6) : ∃ stamp steps, value = .suggestion stamp steps := by
  cases value <;> first | exact ⟨_, _, rfl⟩ | cases h

end

mutual

/-- Values of one shape with equal leaves.  There is one NaN and there are two zeros; entities are
equal if their identifiers are. -/
inductive Alike : Value → Value → Prop
  | null : Alike .null .null
  | bool (value : Bool) : Alike (.bool value) (.bool value)
  | num {a b : Float} (same : a.isNaN ∧ b.isNaN ∨ a.toBits = b.toBits) : Alike (.num a) (.num b)
  | text (content : String) : Alike (.text content) (.text content)
  | entity {a b : Value} {ref ref' : Ref} (first : a.ref? = some ref) (second : b.ref? = some ref')
      (same : ref.id = ref'.id) : Alike a b
  | tuple {as bs : List Value} (items : AlikeAll as bs) : Alike (.tuple as) (.tuple bs)
  | suggestion (stamp : Nat) (steps steps' : List Step) :
      Alike (.suggestion stamp steps) (.suggestion stamp steps')

inductive AlikeAll : List Value → List Value → Prop
  | nil : AlikeAll [] []
  | cons {a b : Value} {as bs : List Value} (first : Alike a b) (rest : AlikeAll as bs) :
      AlikeAll (a :: as) (b :: bs)

end

theorem isAlphanum_of_mem_toString {number : Nat} {c : Char}
    (h : c ∈ (toString number).toList) : c.isAlphanum := by
  rw [Nat.toString_eq_ofList_toDigits, String.toList_ofList] at h
  have hdigit := Nat.isDigit_of_mem_toDigits (by decide) (by decide) h
  simp [Char.isAlphanum, hdigit]

theorem toString_injective {a b : Nat} (h : toString a = toString b) : a = b := by
  rw [Nat.toString_eq_ofList_toDigits, Nat.toString_eq_ofList_toDigits, String.ofList_inj] at h
  rw [← Nat.ofDigitChars_ten_toDigits (n := a), h, Nat.ofDigitChars_ten_toDigits]

theorem kindOf_number (x : Float) :
    ∃ first rest, (numberText x).toList = first :: rest ∧ kindOf first = 2 := by
  obtain ⟨⟨first, rest, htext, hfirst⟩, -⟩ := numberText_chars x
  refine ⟨first, rest, htext, ?_⟩
  have hmarks : ∀ mark ∈ ['n', 't', 'f', '"', '#', '[', 's', ',', ']'], first ≠ mark := by
    rintro mark hmem rfl
    revert hfirst
    simp only [List.mem_cons, List.not_mem_nil, or_false] at hmem
    rcases hmem with rfl | rfl | rfl | rfl | rfl | rfl | rfl | rfl | rfl <;> decide
  simp [kindOf, hmarks]

/-- The text of a value begins as its kind demands. -/
theorem encode_first (value : Value) :
    ∃ first rest, value.encode.toList = first :: rest ∧ kindOf first = value.kind := by
  cases value with
  | null => exact ⟨_, _, rfl, rfl⟩
  | bool value => cases value <;> exact ⟨_, _, rfl, rfl⟩
  | num number =>
    unfold encode
    exact kindOf_number number
  | text content =>
    unfold encode
    exact ⟨_, _, String.toList_ofList, rfl⟩
  | object | array | map | set =>
    unfold encode
    rw [String.toList_append]
    exact ⟨_, _, rfl, rfl⟩
  | tuple =>
    unfold encode
    rw [String.toList_append, String.toList_append]
    exact ⟨_, _, rfl, rfl⟩
  | suggestion stamp steps =>
    refine ⟨'s', "uggestion:".toList ++ (toString stamp).toList, ?_, rfl⟩
    rw [encode, String.toList_append]
    rfl

theorem not_ends_of_isAlphanum {c : Char} (h : c.isAlphanum) : ¬Ends c := by
  rintro (rfl | rfl) <;> cases h

/-- Texts other than those of texts and tuples have no ends of items in them. -/
theorem not_ends_of_mem_encode {value : Value} (htext : value.kind ≠ 3)
    (htuple : value.kind ≠ 5) {c : Char} (h : c ∈ value.encode.toList) : ¬Ends c := by
  have hentity : ∀ {id : Id}, c ∈ ("#" ++ id.text).toList → ¬Ends c := by
    intro id h
    rw [String.toList_append, List.mem_append] at h
    rcases h with h | h
    · rw [List.mem_singleton.mp h]
      rintro (h | h) <;> cases h
    · rw [Id.text, Base36.encode, String.toList_ofList] at h
      exact not_ends_of_isAlphanum (Base36.isAlphanum_digitsFrom (by simp) c h)
  cases value with
  | text => exact absurd rfl htext
  | tuple => exact absurd rfl htuple
  | null =>
    have hall : ∀ c ∈ "null".toList, c.isAlphanum := List.all_eq_true.mp (by decide)
    exact not_ends_of_isAlphanum (hall c h)
  | bool value =>
    have hall : ∀ c ∈ (encode (.bool value)).toList, c.isAlphanum :=
      List.all_eq_true.mp (by cases value <;> decide)
    exact not_ends_of_isAlphanum (hall c h)
  | num number =>
    unfold encode at h
    rcases (numberText_chars number).2 c h with h | rfl | rfl
    · exact not_ends_of_isAlphanum h
    · rintro (h | h) <;> cases h
    · rintro (h | h) <;> cases h
  | object ref | array ref | map ref | set ref =>
    unfold encode at h
    exact hentity h
  | suggestion stamp steps =>
    have hword : "suggestion:".toList.all fun c => c.isAlphanum || c == ':' := by decide
    rw [encode, String.toList_append, List.mem_append] at h
    rcases h with h | h
    · rcases Bool.or_eq_true_iff.mp (List.all_eq_true.mp hword c h) with h | h
      · exact not_ends_of_isAlphanum h
      · rw [beq_iff_eq.mp h]
        rintro (h | h) <;> cases h
    · exact not_ends_of_isAlphanum (isAlphanum_of_mem_toString h)

/-- A front without ends of items is cut off where an end stands. -/
theorem separates {front front' rest rest' : List Char} (hfront : ∀ c ∈ front, ¬Ends c)
    (hfront' : ∀ c ∈ front', ¬Ends c) (hrest : Closed rest) (hrest' : Closed rest')
    (h : front ++ rest = front' ++ rest') : front = front' ∧ rest = rest' := by
  induction front generalizing front' with
  | nil =>
    cases front' with
    | nil => exact ⟨rfl, h⟩
    | cons c front' =>
      subst h
      exact absurd (hrest c rfl) (hfront' c (by simp))
  | cons c front ih =>
    cases front' with
    | nil =>
      subst h
      exact absurd (hrest' c rfl) (hfront c (by simp))
    | cons d front' =>
      obtain ⟨rfl, htail⟩ := List.cons.inj h
      obtain ⟨rfl, hback⟩ := ih (fun d hmem => hfront d (List.mem_cons_of_mem _ hmem))
        (fun d hmem => hfront' d (List.mem_cons_of_mem _ hmem)) htail
      exact ⟨rfl, hback⟩

/-- The text behind an item: the further items, the end of the tuple and what follows it. -/
def following : List Value → List Char → List Char
  | [], rest => ']' :: rest
  | value :: values, rest => ',' :: (value.encode.toList ++ following values rest)

theorem closed_following (values : List Value) (rest : List Char) :
    Closed (following values rest) := by
  cases values with
  | nil => exact fun c h => .inr (Option.some.inj h).symm
  | cons => exact fun c h => .inl (Option.some.inj h).symm

theorem encodeAll_following (value : Value) (values : List Value) (rest : List Char) :
    (",".intercalate (encodeAll (value :: values))).toList ++ ']' :: rest =
      value.encode.toList ++ following values rest := by
  induction values generalizing value with
  | nil => simp [encodeAll, following]
  | cons next values ih =>
    rw [encodeAll, encodeAll, String.intercalate_cons_cons, ← encodeAll]
    simp [following, ← ih next]

theorem encode_tuple (items : List Value) (rest : List Char) :
    (encode (.tuple items)).toList ++ rest =
      '[' :: ((",".intercalate (encodeAll items)).toList ++ ']' :: rest) := by
  simp [encode]

theorem kind_eq {a b : Value} {rest rest' : List Char}
    (h : a.encode.toList ++ rest = b.encode.toList ++ rest') : a.kind = b.kind := by
  obtain ⟨first, tail, hfirst, hkind⟩ := encode_first a
  obtain ⟨first', tail', hfirst', hkind'⟩ := encode_first b
  rw [hfirst, hfirst'] at h
  rw [← hkind, ← hkind', (List.cons.inj h).1]

theorem encode_ne_end {value : Value} {rest rest' : List Char} :
    value.encode.toList ++ rest ≠ ']' :: rest' := by
  intro h
  obtain ⟨first, tail, hfirst, hkind⟩ := encode_first value
  rw [hfirst] at h
  rw [(List.cons.inj h).1] at hkind
  cases value <;> cases hkind

theorem alike_of_encode_eq {a b : Value} (htext : a.kind ≠ 3) (htuple : a.kind ≠ 5)
    (hkind : a.kind = b.kind) (h : a.encode = b.encode) : Alike a b := by
  have hsame := hkind.symm
  cases a with
  | text => exact absurd rfl htext
  | tuple => exact absurd rfl htuple
  | null =>
    obtain rfl := eq_null hsame
    exact .null
  | bool value =>
    obtain ⟨value', rfl⟩ := exists_bool hsame
    obtain rfl : value = value' := by
      cases value <;> cases value' <;> first | rfl | exact absurd h (by decide)
    exact .bool value
  | num number =>
    obtain ⟨number', rfl⟩ := exists_num hsame
    unfold encode at h
    exact .num (.inr (congrArg Float.toBits (numberText_injective h)))
  | object ref | array ref | map ref | set ref =>
    obtain ⟨ref', href, hencode⟩ := exists_ref hsame
    rw [hencode, encode, String.append_right_inj] at h
    exact .entity rfl href (Id.text_injective h)
  | suggestion stamp steps =>
    obtain ⟨stamp', steps', rfl⟩ := exists_suggestion hsame
    rw [encode, encode, String.append_right_inj] at h
    obtain rfl : stamp = stamp' := toString_injective h
    exact .suggestion stamp steps steps'

/-- The text of a value that is no tuple is cut off where an end stands. -/
theorem leaf_separates {a b : Value} {rest rest' : List Char} (hleaf : a.kind ≠ 5)
    (hrest : Closed rest) (hrest' : Closed rest')
    (h : a.encode.toList ++ rest = b.encode.toList ++ rest') : Alike a b ∧ rest = rest' := by
  have hkind := kind_eq h
  by_cases htext : a.kind = 3
  · obtain ⟨content, rfl⟩ := exists_text htext
    obtain ⟨content', rfl⟩ := exists_text (hkind.symm.trans htext)
    unfold encode at h
    obtain ⟨rfl, hback⟩ := Quoted.quote_separates h
    exact ⟨.text content, hback⟩
  · obtain ⟨hfront, hback⟩ := separates
      (fun _ => not_ends_of_mem_encode htext hleaf)
      (fun _ => not_ends_of_mem_encode (hkind ▸ htext) (hkind ▸ hleaf)) hrest hrest' h
    exact ⟨alike_of_encode_eq htext hleaf hkind (String.toList_inj.mp hfront), hback⟩

mutual

theorem encode_separates : ∀ (a : Value) {b : Value} {rest rest' : List Char}, Closed rest →
    Closed rest' → a.encode.toList ++ rest = b.encode.toList ++ rest' → Alike a b ∧ rest = rest'
  | .tuple as => fun hrest hrest' h => by
    obtain ⟨bs, rfl⟩ := exists_tuple (kind_eq h).symm
    rw [encode_tuple, encode_tuple] at h
    have hitems := (List.cons.inj h).2
    match as, bs with
    | [], [] => exact ⟨.tuple .nil, (List.cons.inj hitems).2⟩
    | [], b :: bs =>
      rw [encodeAll_following] at hitems
      exact absurd hitems.symm encode_ne_end
    | a :: as, [] =>
      rw [encodeAll_following] at hitems
      exact absurd hitems encode_ne_end
    | a :: as, b :: bs =>
      rw [encodeAll_following, encodeAll_following] at hitems
      obtain ⟨hfirst, hback⟩ := encode_separates a (closed_following as _)
        (closed_following bs _) hitems
      obtain ⟨hothers, hrest⟩ := following_separates as hback
      exact ⟨.tuple (.cons hfirst hothers), hrest⟩
  | .null | .num _ | .bool _ | .text _ | .object _ | .array _ | .map _ | .set _
  | .suggestion _ _ => leaf_separates nofun

theorem following_separates : ∀ (as : List Value) {bs : List Value} {rest rest' : List Char},
    following as rest = following bs rest' → AlikeAll as bs ∧ rest = rest'
  | [], [], _, _, h => ⟨.nil, (List.cons.inj h).2⟩
  | [], _ :: _, _, _, h => nomatch h
  | _ :: _, [], _, _, h => nomatch h
  | a :: as, b :: bs, rest, rest', h => by
    obtain ⟨hfirst, hback⟩ := encode_separates a (closed_following as rest)
      (closed_following bs rest') (List.cons.inj h).2
    obtain ⟨hitems, hrest⟩ := following_separates as hback
    exact ⟨.cons hfirst hitems, hrest⟩

end

theorem encode_of_ref? {value : Value} {ref : Ref} (h : value.ref? = some ref) :
    value.encode = "#" ++ ref.id.text ∧ MapKey.ofValue value = .ref ref.id := by
  cases value <;> cases h <;> exact ⟨by rw [encode], rfl⟩

mutual

theorem Alike.encode_eq : ∀ {a b : Value}, Alike a b → a.encode = b.encode
  | _, _, .null => rfl
  | _, _, .bool _ => rfl
  | _, _, .num same => by rw [encode, encode, eq_of_same same]
  | _, _, .text _ => rfl
  | _, _, .entity first second same => by
    rw [(encode_of_ref? first).1, (encode_of_ref? second).1, same]
  | _, _, .tuple items => by rw [encode, encode, items.encodeAll_eq]
  | _, _, .suggestion _ _ _ => by rw [encode, encode]

theorem AlikeAll.encodeAll_eq : ∀ {as bs : List Value}, AlikeAll as bs → encodeAll as = encodeAll bs
  | _, _, .nil => rfl
  | _, _, .cons first rest => by rw [encodeAll, encodeAll, first.encode_eq, rest.encodeAll_eq]

end

theorem encode_eq_iff {a b : Value} : a.encode = b.encode ↔ Alike a b := by
  refine ⟨fun h => ?_, Alike.encode_eq⟩
  have hclosed : Closed [] := fun c h => nomatch h
  exact (encode_separates a hclosed hclosed (congrArg (String.toList · ++ []) h)).1

theorem kind_ofValue (value : Value) : (MapKey.ofValue value).kind = min value.kind 5 := by
  cases value <;> rfl

theorem Alike.key_eq {a b : Value} (h : Alike a b) : MapKey.ofValue a = MapKey.ofValue b := by
  cases h with
  | null | bool | text => rfl
  | num same => exact congrArg MapKey.num (congrArg numberRank (eq_of_same same))
  | entity first second same => rw [(encode_of_ref? first).2, (encode_of_ref? second).2, same]
  | tuple items => exact congrArg MapKey.encoded (Alike.tuple items).encode_eq
  | suggestion => exact congrArg MapKey.encoded (Alike.suggestion ..).encode_eq

theorem encode_of_key_eq {value : Value} {text : String}
    (h : MapKey.ofValue value = .encoded text) : value.encode = text := by
  cases value <;> cases h <;> rfl

theorem alike_of_key_eq {a b : Value} (h : MapKey.ofValue a = MapKey.ofValue b) : Alike a b := by
  have hkind : min b.kind 5 = min a.kind 5 := by rw [← kind_ofValue, ← kind_ofValue, h]
  have hsame : a.kind < 5 → b.kind = a.kind := by omega
  cases a with
  | null =>
    obtain rfl := eq_null (hsame (by decide))
    exact .null
  | bool value =>
    obtain ⟨value', rfl⟩ := exists_bool (hsame (by simp [kind]))
    obtain rfl := MapKey.bool.inj h
    exact .bool value
  | num number =>
    obtain ⟨number', rfl⟩ := exists_num (hsame (by simp [kind]))
    exact .num (same_of_numberRank_eq (MapKey.num.inj h))
  | text content =>
    obtain ⟨content', rfl⟩ := exists_text (hsame (by simp [kind]))
    obtain rfl := MapKey.text.inj h
    exact .text content
  | object ref | array ref | map ref | set ref =>
    obtain ⟨ref', href, -⟩ := exists_ref (hsame (by simp [kind]))
    rw [(encode_of_ref? href).2] at h
    exact .entity rfl href (MapKey.ref.inj h)
  | tuple | suggestion => exact encode_eq_iff.mp (encode_of_key_eq h.symm).symm

/-- Two values have one canonical text, and one key, exactly if they have one shape with equal
leaves. -/
theorem keys_exact (a b : Value) :
    (a.encode = b.encode ↔ Alike a b) ∧ (MapKey.ofValue a = MapKey.ofValue b ↔ Alike a b) :=
  ⟨encode_eq_iff, alike_of_key_eq, Alike.key_eq⟩

end Value

end Attire
