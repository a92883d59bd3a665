import Mathlib.Logic.Function.Defs
import SessionMux.Proofs.Json.Reading

/-!
# What is written on one line is read back

Each reader takes back what its writer has written, whatever stands behind it, and leaves that; only behind
a number there may stand nothing that could belong to it. So the text of a value on one line is read as that
value, and two values never have the same text. No control character stands in it, in particular no end of
a line.

* `readChars_escape`, `readText_quote` — characters and texts.
* `readInteger_decimal` — integers.
* **`reads_back`** — values, and the parts of arrays and objects.
* **`parse_line`** — whole texts.
* `plain_inline` — no control characters.
-/

namespace SessionMux.Json

/-! ## Texts -/

theorem hexValue?_hexDigit : ∀ d < 16, hexValue? (hexDigit d) = some d := by decide

/-- A control character is given by a code unit. -/
theorem readUnicode_of_control {c : Char} (hc : c < ' ') (rest : List Char) :
    readUnicode ('0' :: '0' :: hexDigit (c.toNat / 16) :: hexDigit (c.toNat % 16) :: rest) =
      some (c, rest) := by
  have hlt : c.toNat < 32 := hc
  have hunit : readUnit ('0' :: '0' :: hexDigit (c.toNat / 16) :: hexDigit (c.toNat % 16) :: rest) =
      some (c.toNat, rest) := by
    have hzero : hexValue? '0' = some 0 := rfl
    have hvalue : ((0 * 16 + 0) * 16 + c.toNat / 16) * 16 + c.toNat % 16 = c.toNat := by omega
    simp only [readUnit, hzero, hexValue?_hexDigit _ (by omega : c.toNat / 16 < 16),
      hexValue?_hexDigit _ (by omega : c.toNat % 16 < 16), Option.bind_eq_bind, Option.bind_some, hvalue]
    rfl
  have hlow : ¬ (0xd800 ≤ c.toNat ∧ c.toNat < 0xdc00) := by omega
  have hhigh : ¬ (0xdc00 ≤ c.toNat ∧ c.toNat < 0xe000) := by omega
  simp only [readUnicode, hunit, Option.bind_eq_bind, Option.bind_some, if_neg hlow, if_neg hhigh,
    Char.ofNat_toNat]
  rfl

/-- **An escaped character is read back.** -/
theorem readChars_escape (fuel : Nat) (c : Char) (rest : List Char) :
    readChars (fuel + 1) (escape c ++ rest) = (readChars fuel rest).map fun p => (c :: p.1, p.2) := by
  have hbehind : ∀ {e : List Char}, readEscape (e ++ rest) = some (c, rest) →
      readChars (fuel + 1) ('\\' :: (e ++ rest)) =
        (readChars fuel rest).map fun p => (c :: p.1, p.2) := by
    intro e he
    rw [readChars, if_neg (by decide), if_pos rfl, he]
    simp only [Option.bind_eq_bind, Option.bind_some]
    cases readChars fuel rest <;> rfl
  unfold escape
  split
  · exact hbehind (e := ['"']) rfl
  · exact hbehind (e := ['\\']) rfl
  · exact hbehind (e := ['b']) rfl
  · exact hbehind (e := ['f']) rfl
  · exact hbehind (e := ['n']) rfl
  · exact hbehind (e := ['r']) rfl
  · exact hbehind (e := ['t']) rfl
  · rename_i hquote hbackslash _ _ _ _ _
    split
    · rename_i hc
      exact hbehind (e := ['u', '0', '0', hexDigit (c.toNat / 16), hexDigit (c.toNat % 16)])
        (readUnicode_of_control hc rest)
    · rename_i hc
      rw [List.singleton_append, readChars, if_neg hquote, if_neg hbackslash, if_neg hc]
      cases readChars fuel rest <;> rfl

theorem readChars_flatMap {fuel : Nat} {l rest : List Char} (hfuel : l.length < fuel) :
    readChars fuel (l.flatMap escape ++ '"' :: rest) = some (l, rest) := by
  induction l generalizing fuel with
  | nil =>
    obtain ⟨fuel, rfl⟩ : ∃ n, fuel = n + 1 := ⟨fuel - 1, by simp at hfuel; omega⟩
    rfl
  | cons c l ih =>
    obtain ⟨fuel, rfl⟩ : ∃ n, fuel = n + 1 := ⟨fuel - 1, by simp at hfuel; omega⟩
    rw [List.flatMap_cons, List.append_assoc, readChars_escape, ih (by simpa using hfuel)]
    rfl

theorem length_escape_pos (c : Char) : 0 < (escape c).length := by
  unfold escape
  split
  case h_8 => split <;> simp
  all_goals simp

/-- Escaping does not make a text shorter. -/
theorem length_le_flatMap_escape (l : List Char) : l.length ≤ (l.flatMap escape).length := by
  induction l with
  | nil => exact Nat.le_refl 0
  | cons c l ih =>
    have hone := length_escape_pos c
    rw [List.flatMap_cons, List.length_append, List.length_cons]
    omega

/-- **A text is read back** behind its opening quote. -/
theorem readText_quote (s : String) (rest : List Char) :
    readText (s.toList.flatMap escape ++ '"' :: rest) = some (s, rest) := by
  have hlength := length_le_flatMap_escape s.toList
  have hchars : readChars (s.toList.flatMap escape ++ '"' :: rest).length
      (s.toList.flatMap escape ++ '"' :: rest) = some (s.toList, rest) := by
    apply readChars_flatMap
    rw [List.length_append, List.length_cons]
    omega
  rw [readText, hchars]
  simp

/-! ## Numbers -/

/-- Nothing stands here that could belong to a number. -/
def EndsNumber (rest : List Char) : Prop :=
  ∀ c ∈ rest.head?, c.isDigit = false ∧ c ≠ '.' ∧ c ≠ 'e' ∧ c ≠ 'E'

theorem EndsNumber.not_goesOn {rest : List Char} (h : EndsNumber rest) : goesOn rest = false := by
  cases rest with
  | nil => rfl
  | cons c rest =>
    obtain ⟨-, hdot, he, hE⟩ := h c rfl
    simp [goesOn, hdot, he, hE]

theorem isDigit_toDigits (n : Nat) : ∀ c ∈ Nat.toDigits 10 n, c.isDigit = true :=
  fun _ hc => Nat.isDigit_of_mem_toDigits (by decide) (by decide) hc

theorem toDigits_eq_cons (n : Nat) : ∃ c l, Nat.toDigits 10 n = c :: l ∧ c.isDigit = true := by
  obtain ⟨c, l, hd⟩ := List.exists_cons_of_ne_nil (Nat.toDigits_ne_nil (n := n) (b := 10))
  exact ⟨c, l, hd, isDigit_toDigits n c (hd ▸ List.mem_cons_self)⟩

theorem head?_toDigits {n : Nat} (hn : 0 < n) : (Nat.toDigits 10 n).head? ≠ some '0' := by
  induction n using Nat.strongRecOn with
  | ind n ih =>
    by_cases hlt : n < 10
    · rw [Nat.toDigits_of_lt_base hlt]
      simp
      omega
    · have hhead := ih (n / 10) (by omega) (by omega)
      rw [Nat.toDigits_of_base_le (by decide) (by omega), List.head?_append]
      cases hd : (Nat.toDigits 10 (n / 10)).head? with
      | none => exact absurd (List.head?_eq_none_iff.mp hd) Nat.toDigits_ne_nil
      | some c =>
        rw [hd] at hhead
        exact hhead

theorem takeWhile_digits {l rest : List Char} (hl : ∀ c ∈ l, c.isDigit = true) (h : EndsNumber rest) :
    (l ++ rest).takeWhile Char.isDigit = l ∧ (l ++ rest).dropWhile Char.isDigit = rest := by
  rw [List.takeWhile_append_of_pos hl, List.dropWhile_append_of_pos hl]
  cases rest with
  | nil => simp
  | cons c rest =>
    obtain ⟨hc, -⟩ := h c rfl
    simp [hc]

theorem readNatural_toDigits (n : Nat) {rest : List Char} (h : EndsNumber rest) :
    readNatural (Nat.toDigits 10 n ++ rest) = some (n, rest) := by
  obtain ⟨htake, hdrop⟩ := takeWhile_digits (isDigit_toDigits n) h
  have hgood : ¬ (Nat.toDigits 10 n = [] ∨
      (Nat.toDigits 10 n).head? = some '0' ∧ Nat.toDigits 10 n ≠ ['0']) := by
    intro hbad
    rcases hbad with hnil | ⟨hhead, hlong⟩
    · exact Nat.toDigits_ne_nil hnil
    · rcases Nat.eq_zero_or_pos n with rfl | hn
      · exact hlong (Nat.toDigits_zero 10)
      · exact head?_toDigits hn hhead
  simp only [readNatural, htake, hdrop, if_neg hgood, Nat.ofDigitChars_ten_toDigits]

/-- **An integer is read back.** -/
theorem readInteger_decimal (n : Int) {rest : List Char} (h : EndsNumber rest) :
    readInteger (decimal n ++ rest) = some (n, rest) := by
  cases n with
  | negSucc n =>
    simp only [decimal, List.cons_append, readInteger, readNatural_toDigits (n + 1) h,
      Option.bind_eq_bind, Option.bind_some, h.not_goesOn]
    rfl
  | ofNat n =>
    have hminus : ∀ digits, Nat.toDigits 10 n ++ rest ≠ '-' :: digits := by
      intro digits heq
      obtain ⟨c, l, hd, hdigit⟩ := toDigits_eq_cons n
      rw [hd] at heq
      cases heq
      cases hdigit
    rw [decimal, readInteger, readNatural_toDigits n h]
    · simp only [Option.bind_eq_bind, Option.bind_some, h.not_goesOn]
      rfl
    · exact hminus

/-- An integer begins with a digit or its sign. -/
theorem decimal_eq_cons (n : Int) : ∃ c l, decimal n = c :: l ∧ (c.isDigit = true ∨ c = '-') := by
  cases n with
  | negSucc n => exact ⟨'-', _, rfl, .inr rfl⟩
  | ofNat n =>
    obtain ⟨c, l, hd, hc⟩ := toDigits_eq_cons n
    exact ⟨c, l, hd, .inl hc⟩

/-! ## Values -/

theorem readMark_self {c : Char} (hc : isBlank c = false) (rest : List Char) :
    readMark c (c :: rest) = some rest := by
  simp [readMark, skipBlanks, hc]

theorem readMark_other {c mark : Char} (hc : isBlank c = false) (hne : c ≠ mark) (rest : List Char) :
    readMark mark (c :: rest) = none := by
  simp [readMark, skipBlanks, hc, hne]

/-- Behind an item or a field there is no more of a number. -/
theorem endsNumber_cons {c : Char} (hc : c ∈ [',', ']', '\x7d']) (rest : List Char) :
    EndsNumber (c :: rest) := by
  intro c' hc'
  cases hc'
  simp only [List.mem_cons, List.not_mem_nil, or_false] at hc
  rcases hc with rfl | rfl | rfl <;> simp

/-- A digit or a sign is none of the other characters that mean something to a reader. -/
theorem ne_of_begins {c mark : Char} (hc : c.isDigit = true ∨ c = '-')
    (hmark : mark ∈ [' ', '\t', '\n', '\r', '"', '\'', '[', ']', '\x7b', 'n', 't', 'f']) : c ≠ mark := by
  have hno : ∀ mark ∈ [' ', '\t', '\n', '\r', '"', '\'', '[', ']', '\x7b', 'n', 't', 'f'],
      mark.isDigit = false ∧ mark ≠ '-' := by simp
  intro heq
  subst heq
  obtain ⟨hdigit, hminus⟩ := hno c hmark
  rcases hc with hyes | hyes
  · exact Bool.false_ne_true (hdigit.symm.trans hyes)
  · exact hminus hyes

theorem isBlank_of_begins {c : Char} (hc : c.isDigit = true ∨ c = '-') : isBlank c = false := by
  simp [isBlank, ne_of_begins hc]

theorem readValue_integer (n : Int) {fuel : Nat} {rest : List Char} (h : EndsNumber rest) :
    readValue (fuel + 1) (decimal n ++ rest) = some (.integer n, rest) := by
  obtain ⟨c, l, hdecimal, hc⟩ := decimal_eq_cons n
  have hread := readInteger_decimal n h
  rw [hdecimal, List.cons_append] at hread ⊢
  rw [readValue]
  simp [skipBlanks, isBlank_of_begins hc, ne_of_begins hc, hread]

/-- A value begins with something that closes no array. -/
theorem readMark_inline (v : Value) (rest : List Char) : readMark ']' (v.inline ++ rest) = none := by
  cases v with
  | null => rfl
  | boolean b => cases b <;> rfl
  | integer n =>
    obtain ⟨c, l, hdecimal, hc⟩ := decimal_eq_cons n
    rw [Value.inline, hdecimal]
    exact readMark_other (isBlank_of_begins hc) (ne_of_begins hc (by simp)) _
  | string s => rfl
  | array items => rfl
  | object fields => rfl

theorem readMark_inlineItems (v : Value) (items : List Value) (rest : List Char) :
    readMark ']' (inlineItems (v :: items) ++ rest) = none := by
  cases items with
  | nil => exact readMark_inline v rest
  | cons w items =>
    rw [inlineItems, List.append_assoc]
    · exact readMark_inline v _
    · simp

theorem readMark_inlineFields (name : String) (v : Value) (fields : List (String × Value))
    (rest : List Char) : readMark '\x7d' (inlineFields ((name, v) :: fields) ++ rest) = none := by
  cases fields with
  | nil => rfl
  | cons f fields => rfl

theorem length_inline_pos (v : Value) : 0 < v.inline.length := by
  cases v with
  | null => exact Nat.zero_lt_succ _
  | boolean b => cases b <;> exact Nat.zero_lt_succ _
  | integer n =>
    obtain ⟨c, l, hdecimal, -⟩ := decimal_eq_cons n
    rw [Value.inline, hdecimal]
    exact Nat.zero_lt_succ _
  | string s => exact Nat.zero_lt_succ _
  | array items => exact Nat.zero_lt_succ _
  | object fields => exact Nat.zero_lt_succ _

/-- Texts of up to `fuel` characters are read back as the values whose texts they are. -/
def ReadsValues (fuel : Nat) : Prop :=
  ∀ v rest, v.inline.length ≤ fuel → EndsNumber rest → readValue fuel (v.inline ++ rest) = some (v, rest)

/-- So are the items of an array. -/
def ReadsItems (fuel : Nat) : Prop :=
  ∀ v items rest, (inlineItems (v :: items)).length < fuel →
    readItems fuel (inlineItems (v :: items) ++ ']' :: rest) = some (v :: items, rest)

/-- So are the fields of an object. -/
def ReadsFields (fuel : Nat) : Prop :=
  ∀ name v fields rest, (inlineFields ((name, v) :: fields)).length < fuel →
    readFields fuel (inlineFields ((name, v) :: fields) ++ '\x7d' :: rest) =
      some ((name, v) :: fields, rest)

section Steps

variable {fuel : Nat}

theorem readsValues_succ (hi : ReadsItems fuel) (hf : ReadsFields fuel) : ReadsValues (fuel + 1) := by
  intro v rest hfuel h
  match v with
  | .null => rfl
  | .boolean true => rfl
  | .boolean false => rfl
  | .integer n => exact readValue_integer n h
  | .string s =>
    have hread := readText_quote s rest
    simp [Value.inline, quote, readValue, skipBlanks, isBlank, hread]
  | .array [] => rfl
  | .array (v :: items) =>
    simp only [Value.inline, List.cons_append, List.length_cons, List.length_append] at hfuel
    have hopen := readMark_inlineItems v items (']' :: rest)
    have hitems := hi v items rest (by omega)
    simp [Value.inline, readValue, skipBlanks, isBlank, hopen, hitems]
  | .object [] => rfl
  | .object ((name, v) :: fields) =>
    simp only [Value.inline, List.cons_append, List.length_cons, List.length_append] at hfuel
    have hopen := readMark_inlineFields name v fields ('\x7d' :: rest)
    have hfields := hf name v fields rest (by omega)
    simp [Value.inline, readValue, skipBlanks, isBlank, hopen, hfields]

theorem readsItems_succ (hv : ReadsValues fuel) (hi : ReadsItems fuel) : ReadsItems (fuel + 1) := by
  intro v items rest hfuel
  cases items with
  | nil =>
    simp only [inlineItems] at hfuel ⊢
    rw [readItems, hv v (']' :: rest) (by omega) (endsNumber_cons (by simp) rest)]
    rfl
  | cons w items =>
    simp only [inlineItems, List.length_append, List.length_cons] at hfuel
    have hvalue := hv v (',' :: (inlineItems (w :: items) ++ ']' :: rest)) (by omega)
      (endsNumber_cons (by simp) _)
    have hitems := hi w items rest (by omega)
    rw [inlineItems, List.append_assoc, List.cons_append, readItems, hvalue]
    · simp [readMark_self (c := ',') rfl, hitems]
    · simp

theorem readsFields_succ (hv : ReadsValues fuel) (hf : ReadsFields fuel) : ReadsFields (fuel + 1) := by
  intro name v fields rest hfuel
  cases fields with
  | nil =>
    simp only [inlineFields, List.length_append, List.length_cons] at hfuel
    have hvalue := hv v ('\x7d' :: rest) (by omega) (endsNumber_cons (by simp) rest)
    have hname := readText_quote name (':' :: (v.inline ++ '\x7d' :: rest))
    simp [inlineFields, quote, readFields, readMark, skipBlanks, isBlank, hname, hvalue]
  | cons f fields =>
    obtain ⟨name', w⟩ := f
    simp only [inlineFields, List.length_append, List.length_cons] at hfuel
    let behind := ',' :: (inlineFields ((name', w) :: fields) ++ '\x7d' :: rest)
    have hvalue := hv v behind (by omega) (endsNumber_cons (by simp) _)
    have hfields := hf name' w fields rest (by omega)
    have hname := readText_quote name (':' :: (v.inline ++ behind))
    simp [inlineFields, quote, readFields, readMark, skipBlanks, isBlank, behind, hname, hvalue, hfields]

end Steps

/-- **Values, items and fields are read back**, by induction on how much is read. -/
theorem reads_back (fuel : Nat) : ReadsValues fuel ∧ ReadsItems fuel ∧ ReadsFields fuel := by
  induction fuel with
  | zero =>
    refine ⟨fun v rest hfuel _ => ?_, fun v items rest hfuel => ?_, fun name v fields rest hfuel => ?_⟩
    · have hpos := length_inline_pos v
      omega
    · omega
    · omega
  | succ fuel ih =>
    obtain ⟨hv, hi, hf⟩ := ih
    exact ⟨readsValues_succ hi hf, readsItems_succ hv hi, readsFields_succ hv hf⟩

/-- **The text of a value on one line is read as that value.** -/
theorem parse_line (v : Value) : parse v.line = some v := by
  have hread := (reads_back v.inline.length).1 v [] (Nat.le_refl _) (by simp [EndsNumber])
  rw [List.append_nil] at hread
  rw [parse, Value.line, String.toList_ofList, hread]
  rfl

/-- Two values never have the same text. -/
theorem line_injective : Function.Injective Value.line := by
  intro v v' heq
  have hparse : parse v.line = parse v'.line := congrArg parse heq
  rw [parse_line, parse_line] at hparse
  exact Option.some.inj hparse

/-! ## No control characters -/

theorem plain_hexDigit : ∀ d < 16, ' ' ≤ hexDigit d := by decide

theorem plain_escape (c : Char) : ∀ c' ∈ escape c, ' ' ≤ c' := by
  unfold escape
  split
  case h_8 =>
    split
    · rename_i hc
      have hlt : c.toNat < 32 := hc
      have hhigh := plain_hexDigit (c.toNat / 16) (by omega)
      have hlow := plain_hexDigit (c.toNat % 16) (by omega)
      simp only [List.forall_mem_cons]
      exact ⟨by decide, by decide, by decide, by decide, hhigh, hlow, by simp⟩
    · rename_i hc
      simpa using hc
  all_goals simp

theorem plain_quote (s : String) : ∀ c ∈ quote s, ' ' ≤ c := by
  intro c hc
  simp only [quote, List.cons_append, List.mem_cons, List.mem_append, List.mem_flatMap,
    List.not_mem_nil, or_false] at hc
  rcases hc with rfl | ⟨c', -, hc⟩ | rfl
  · decide
  · exact plain_escape c' c hc
  · decide

theorem plain_decimal (n : Int) : ∀ c ∈ decimal n, ' ' ≤ c := by
  have hdigits : ∀ n, ∀ c ∈ Nat.toDigits 10 n, ' ' ≤ c := by
    intro n c hc
    have hdigit : c.isDigit = true := isDigit_toDigits n c hc
    rw [Char.isDigit, Bool.and_eq_true, decide_eq_true_eq] at hdigit
    exact UInt32.le_trans (by decide : ' '.val ≤ 48) hdigit.1
  cases n with
  | ofNat n => exact hdigits n
  | negSucc n =>
    rw [decimal, List.forall_mem_cons]
    exact ⟨by decide, hdigits (n + 1)⟩

mutual

/-- **No control character stands in the text of a value.** -/
theorem plain_inline (v : Value) : ∀ c ∈ v.inline, ' ' ≤ c := by
  match v with
  | .null => simp [Value.inline]
  | .boolean true => simp [Value.inline]
  | .boolean false => simp [Value.inline]
  | .integer n => exact plain_decimal n
  | .string s => exact plain_quote s
  | .array items =>
    intro c hc
    simp only [Value.inline, List.cons_append, List.mem_cons, List.mem_append, List.not_mem_nil,
      or_false] at hc
    rcases hc with rfl | hc | rfl
    · decide
    · exact plain_inlineItems items c hc
    · decide
  | .object fields =>
    intro c hc
    simp only [Value.inline, List.cons_append, List.mem_cons, List.mem_append, List.not_mem_nil,
      or_false] at hc
    rcases hc with rfl | hc | rfl
    · decide
    · exact plain_inlineFields fields c hc
    · decide

theorem plain_inlineItems (items : List Value) : ∀ c ∈ inlineItems items, ' ' ≤ c := by
  match items with
  | [] => simp [inlineItems]
  | [v] => exact plain_inline v
  | v :: w :: items =>
    intro c hc
    simp only [inlineItems, List.mem_append, List.mem_cons] at hc
    rcases hc with hc | rfl | hc
    · exact plain_inline v c hc
    · decide
    · exact plain_inlineItems (w :: items) c hc

theorem plain_inlineFields (fields : List (String × Value)) : ∀ c ∈ inlineFields fields, ' ' ≤ c := by
  match fields with
  | [] => simp [inlineFields]
  | [(name, v)] =>
    intro c hc
    simp only [inlineFields, List.mem_append, List.mem_cons] at hc
    rcases hc with hc | rfl | hc
    · exact plain_quote name c hc
    · decide
    · exact plain_inline v c hc
  | (name, v) :: f :: fields =>
    intro c hc
    simp only [inlineFields, List.mem_append, List.mem_cons] at hc
    rcases hc with (hc | rfl | hc) | rfl | hc
    · exact plain_quote name c hc
    · decide
    · exact plain_inline v c hc
    · decide
    · exact plain_inlineFields (f :: fields) c hc

end

end SessionMux.Json
