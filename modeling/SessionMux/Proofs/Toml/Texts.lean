import SessionMux.Proofs.Json.RoundTrip
import SessionMux.Toml.Document

/-!
# Texts of single values

A reader takes what it reads from the front of the characters and leaves what stands behind. So a text of
a value is one that is read as the value whatever ends it. Truth values, integers of 64 bits and texts are
written as they are in JSON, with the same escapes; only the character behind the tilde may not stand in a
TOML text.

* `Reader.bind_eq`, `Reader.Keeps` — readers one after another: what they come to, and what they leave.
* `IsText` — a text of a value.
* **`isText_boolean`**, **`isText_integer`**, **`isText_string`** — the texts of single values.
-/

namespace SessionMux.Toml

open Reader

namespace Reader

variable {α β : Type} {s r : List Char}

/-! ## Readers on what stands in front -/

/-- A reader after another goes on with what is left. -/
theorem bind_eq {p : Reader α} {f : α → Reader β} {a : α} (h : p s = some (a, r)) :
    (p >>= f) s = f a r := by
  show (p s >>= fun x => f x.1 x.2) = _
  rw [h]
  rfl

theorem bind_none {p : Reader α} (h : p s = none) (f : α → Reader β) : (p >>= f) s = none := by
  show (p s >>= fun x => f x.1 x.2) = _
  rw [h]
  rfl

theorem orElse_none {p : Reader α} (h : p s = none) (q : Reader α) : (p <|> q) s = q s := by
  show (p s <|> q s) = _
  rw [h]
  rfl

theorem char_eq (c : Char) (r : List Char) : char c (c :: r) = some ((), r) := by
  simp [char, one]

theorem chars_eq (l r : List Char) : chars l (l ++ r) = some ((), r) := by
  induction l with
  | nil => rfl
  | cons c l ih =>
    show (char c >>= fun _ => chars l) (c :: (l ++ r)) = _
    rw [bind_eq (char_eq c _), ih]

theorem peek_eq (s : List Char) : peek s = some (s.head?, s) := rfl

theorem lift_eq {o : Option α} {a : α} (h : o = some a) (s : List Char) :
    (liftM o : Reader α) s = some (a, s) := by
  rw [h]
  rfl

/-- The characters do not go on with one of the kind. -/
def Stops (p : Char → Bool) (r : List Char) : Prop := ∀ c ∈ r.head?, p c = false

theorem stops_nil (p : Char → Bool) : Stops p [] := fun _ h => nomatch h

theorem stops_cons {p : Char → Bool} {c : Char} (hc : p c = false) (r : List Char) :
    Stops p (c :: r) := by
  rintro _ ⟨⟩
  exact hc

theorem one_eq {p : Char → Bool} {c : Char} (hc : p c = true) (r : List Char) :
    one p (c :: r) = some (c, r) := by
  rw [one, if_pos hc]

theorem one_none {p : Char → Bool} (h : Stops p s) : one p s = none := by
  cases s with
  | nil => rfl
  | cons c s => rw [one, if_neg (by rw [h c rfl]; decide)]

theorem maybe_none {p : Reader α} (h : p s = none) : maybe p s = some (none, s) := by
  rw [maybe, h]

/-- A run of characters of a kind is taken as far as it goes. -/
theorem many_eq {p : Char → Bool} {l : List Char} (hl : ∀ c ∈ l, p c = true) (hr : Stops p r) :
    many p (l ++ r) = some (l, r) := by
  rw [many, List.takeWhile_append_of_pos hl, List.dropWhile_append_of_pos hl]
  cases r with
  | nil => simp
  | cons c r => simp [hr c rfl]

theorem count_eq {p : Char → Bool} {l : List Char} (hl : ∀ c ∈ l, p c = true) (r : List Char) :
    count p l.length (l ++ r) = some (l, r) := by
  induction l with
  | nil => rfl
  | cons c l ih =>
    rw [List.forall_mem_cons] at hl
    rw [List.length_cons, List.cons_append, count, bind_eq (one_eq hl.1 _), bind_eq (ih hl.2)]
    rfl

theorem blanks_none (hr : Stops isBlank r) : blanks r = some ((), r) :=
  bind_eq (many_eq (l := []) nofun hr)

theorem blanks_one (hr : Stops isBlank r) : blanks (' ' :: r) = some ((), r) :=
  bind_eq (many_eq (List.forall_mem_singleton.mpr rfl) hr)

/-! ## Readers that keep what they find -/

variable {P : List Char → Prop}

/-- In front of characters of a kind the reader leaves characters of that kind. -/
def Keeps (P : List Char → Prop) (p : Reader α) : Prop := ∀ s a r, P s → p s = some (a, r) → P r

theorem Keeps.pure (a : α) : Keeps P (pure a) := by
  intro s b r hs h
  cases h
  exact hs

theorem Keeps.failure : Keeps P (failure : Reader α) := nofun

theorem Keeps.bind {p : Reader α} {f : α → Reader β} (hp : Keeps P p) (hf : ∀ a, Keeps P (f a)) :
    Keeps P (p >>= f) := by
  intro s b r hs h
  obtain ⟨⟨a, s'⟩, ha, hb⟩ := Option.bind_eq_some_iff.mp h
  exact hf a s' b r (hp s a s' hs ha) hb

/-- There is no result where what comes next has none. -/
theorem Keeps.bind_none {p : Reader α} {f : α → Reader β} (hp : Keeps P p) (hs : P s)
    (hf : ∀ a r, P r → f a r = none) : (p >>= f) s = none := by
  cases h : p s with
  | none => exact Reader.bind_none h f
  | some x =>
    obtain ⟨a, r⟩ := x
    rw [bind_eq h]
    exact hf a r (hp s a r hs h)

end Reader

/-! ## Texts of values -/

/-- What ends a value: the end of its line, or what stands behind it in braces. -/
def Ends (r : List Char) : Prop := ∃ c r', r = c :: r' ∧ (c = '\n' ∨ c = ' ' ∨ c = ',')

/-- **A text of a value**, whatever ends it and however deep it stands. -/
structure IsText (v : Value) (l : List Char) : Prop where
  begins : ∃ c l', l = c :: l' ∧ isBlank c = false
  read_eq : ∀ (depth : Nat) (r : List Char), Ends r → value depth (l ++ r) = some (v, r)

/-- What opens neither an array nor a table is a single value. -/
theorem value_eq_scalar {c : Char} (hbracket : c ≠ '[') (hbrace : c ≠ '\x7b') (depth : Nat)
    (r : List Char) : value depth (c :: r) = scalar (c :: r) := by
  cases depth with
  | zero => rfl
  | succ depth =>
    rw [value, bind_eq (peek_eq _), List.head?_cons]
    generalize hx : some c = x
    split
    · cases hx
      exact absurd rfl hbracket
    · cases hx
      exact absurd rfl hbrace
    · rfl

/-- **Truth values.** -/
theorem isText_boolean (b : Bool) :
    IsText (.boolean b) (if b then ['t', 'r', 'u', 'e'] else ['f', 'a', 'l', 's', 'e']) := by
  cases b with
  | true =>
    refine ⟨⟨'t', ['r', 'u', 'e'], rfl, by decide⟩, fun depth r _ => ?_⟩
    show value depth ('t' :: (['r', 'u', 'e'] ++ r)) = _
    rw [value_eq_scalar (by decide) (by decide)]
    exact bind_eq (f := fun _ => pure (Value.boolean true)) (chars_eq ['t', 'r', 'u', 'e'] r)
  | false =>
    refine ⟨⟨'f', ['a', 'l', 's', 'e'], rfl, by decide⟩, fun depth r _ => ?_⟩
    show value depth ('f' :: (['a', 'l', 's', 'e'] ++ r)) = _
    rw [value_eq_scalar (by decide) (by decide)]
    exact bind_eq (f := fun _ => pure (Value.boolean false)) (chars_eq ['f', 'a', 'l', 's', 'e'] r)

/-! ## Integers -/

/-- Decimal digits up to what ends a value. -/
inductive Digits : List Char → Prop
  | ends {r : List Char} (h : Ends r) : Digits r
  | digit {c : Char} {r : List Char} (hc : c.isDigit = true) (h : Digits r) : Digits (c :: r)

section Digits

variable {s r : List Char}

theorem Digits.stops {p : Char → Bool} (h : Digits s)
    (hp : ∀ c, c.isDigit = true ∨ c = '\n' ∨ c = ' ' ∨ c = ',' → p c = false) : Stops p s := by
  cases h with
  | ends h =>
    obtain ⟨c, r, rfl, hc⟩ := h
    exact stops_cons (hp c (.inr hc)) r
  | digit hc _ => exact stops_cons (hp _ (.inl hc)) _

/-- Any other character does not stand among them. -/
theorem Digits.stops_beq {mark : Char} (h : Digits s)
    (hmark : (mark.isDigit || ['\n', ' ', ','].contains mark) = false) : Stops (· == mark) s := by
  refine h.stops fun c hc => ?_
  rw [beq_eq_false_iff_ne]
  rintro rfl
  rcases hc with hc | rfl | rfl | rfl
  · rw [hc] at hmark
    cases hmark
  all_goals cases hmark

theorem Digits.char_none {mark : Char} (h : Digits s)
    (hmark : (mark.isDigit || ['\n', ' ', ','].contains mark) = false) : char mark s = none := by
  rw [char, one_none (h.stops_beq hmark)]
  rfl

theorem digits_append {l : List Char} (hl : ∀ c ∈ l, c.isDigit = true) (hr : Ends r) :
    Digits (l ++ r) := by
  induction l with
  | nil => exact .ends hr
  | cons c l ih =>
    rw [List.forall_mem_cons] at hl
    exact .digit hl.1 (ih hl.2)

theorem keeps_digit : Keeps Digits (one Char.isDigit) := by
  intro s a r hs h
  cases hs with
  | ends hs =>
    obtain ⟨c, r, rfl, rfl | rfl | rfl⟩ := hs
    all_goals cases h
  | digit hc hs =>
    rw [one, if_pos hc] at h
    cases h
    exact hs

theorem keeps_count (n : Nat) : Keeps Digits (count Char.isDigit n) := by
  induction n with
  | zero => exact .pure []
  | succ n ih => exact keeps_digit.bind fun _ => ih.bind fun _ => .pure _

theorem keeps_field (n lo hi : Nat) : Keeps Digits (field n lo hi) := by
  refine (keeps_count n).bind fun l => ?_
  dsimp only
  split
  · exact .pure _
  · exact .failure

theorem moment_none (hday : day s = none) (htime : time s = none) : moment s = none :=
  bind_none ((orElse_none (bind_none hday _) _).trans htime) _

/-- There is no moment without a dash or a colon. -/
theorem Digits.moment_none (h : Digits s) : moment s = none :=
  Toml.moment_none
    ((keeps_field 4 0 9999).bind_none h fun _ _ hr => bind_none (hr.char_none rfl) _)
    ((keeps_field 2 0 23).bind_none h fun _ _ hr => bind_none (hr.char_none rfl) _)

/-- A moment has no sign. -/
theorem moment_minus (r : List Char) : moment ('-' :: r) = none := by
  have hfield : ∀ n lo hi, field (n + 1) lo hi ('-' :: r) = none :=
    fun _ _ _ => bind_none (bind_none rfl _) _
  exact moment_none (bind_none (hfield 3 0 9999) _) (bind_none (hfield 1 0 23) _)

theorem furtherDigits_eq {l : List Char} (hl : ∀ c ∈ l, c.isDigit = true) (hr : Ends r) :
    furtherDigits Char.isDigit (l ++ r) = some (l, r) := by
  induction l with
  | nil =>
    obtain ⟨c, r, rfl, rfl | rfl | rfl⟩ := hr
    all_goals rfl
  | cons c l ih =>
    rw [List.forall_mem_cons] at hl
    have hne : c ≠ '_' := by
      rintro rfl
      exact absurd hl.1 (by decide)
    rw [List.cons_append, furtherDigits, if_neg (by simpa using hne), if_pos hl.1, ih hl.2]
    · rfl
    · intro d r h _
      exact absurd h hne

/-- The digits of a number are taken as a whole. -/
theorem plainDigits_toDigits (n : Nat) (hr : Ends r) :
    plainDigits (Nat.toDigits 10 n ++ r) = some (Nat.toDigits 10 n, r) := by
  have hzero : (Nat.toDigits 10 n).head? = some '0' → n = 0 := fun h =>
    (Nat.eq_zero_or_pos n).resolve_right fun hn => Json.head?_toDigits hn h
  obtain ⟨c, l, hd, hdigit⟩ := Json.toDigits_eq_cons n
  have hdigits := Json.isDigit_toDigits n
  rw [hd, List.forall_mem_cons] at hdigits
  rw [hd, List.head?_cons] at hzero
  rw [hd, List.cons_append, plainDigits, bind_eq (one_eq hdigit _)]
  by_cases hc : c = '0'
  · -- no digit stands behind a zero in front
    subst hc
    rw [hzero rfl] at hd
    cases hd
    rfl
  · rw [if_neg (by simpa using hc), bind_eq (furtherDigits_eq hdigits.2 hr)]
    rfl

/-- There is no float without a point or an exponent. -/
theorem sign_none (h : Stops (fun c => c == '+' || c == '-') s) : sign s = some (false, s) := by
  rw [sign, bind_eq (maybe_none (one_none h))]
  rfl

theorem stops_sign {c : Char} (hc : c.isDigit = true) (r : List Char) :
    Stops (fun c => c == '+' || c == '-') (c :: r) := by
  refine stops_cons ?_ r
  rw [Bool.or_eq_false_iff, beq_eq_false_iff_ne, beq_eq_false_iff_ne]
  constructor <;> rintro rfl <;> exact absurd hc (by decide)

theorem float_none {minus : Bool} {n : Nat} (hsign : sign s = some (minus, Nat.toDigits 10 n ++ r))
    (hr : Ends r) : float s = none := by
  have hexponent : exponent r = none := by
    refine bind_none (one_none ((Digits.ends hr).stops ?_)) _
    rintro c (hc | rfl | rfl | rfl)
    · rw [Bool.or_eq_false_iff, beq_eq_false_iff_ne, beq_eq_false_iff_ne]
      constructor <;> rintro rfl <;> exact absurd hc (by decide)
    all_goals rfl
  rw [float, bind_eq hsign, bind_eq (peek_eq _)]
  obtain ⟨c, l, hd, hc⟩ := Json.toDigits_eq_cons n
  rw [hd, List.cons_append, List.head?_cons]
  generalize hx : some c = x
  split
  · cases hx
    exact absurd hc (by decide)
  · cases hx
    exact absurd hc (by decide)
  · rw [← List.cons_append, ← hd, bind_eq (plainDigits_toDigits n hr)]
    refine bind_none ?_ _
    rw [bind_eq (peek_eq r)]
    obtain ⟨c, r, rfl, rfl | rfl | rfl⟩ := hr
    all_goals exact bind_none hexponent fun power => pure ([], power)

theorem sees_zero {mark : Char} (h : Digits s)
    (hmark : (mark.isDigit || ['\n', ' ', ','].contains mark) = false) :
    sees ['0', mark] s = some (false, s) := by
  have hno : List.isPrefixOf ['0', mark] s = false := by
    cases h with
    | ends h =>
      obtain ⟨c, r, rfl, rfl | rfl | rfl⟩ := h
      all_goals rfl
    | @digit c r hc h =>
      have hstops := h.stops_beq hmark
      rw [List.isPrefixOf_cons_cons]
      cases r with
      | nil => exact Bool.and_false _
      | cons c' r =>
        have hne : (mark == c') = false := Bool.beq_comm.trans (hstops c' rfl)
        rw [List.isPrefixOf_cons_cons, hne, Bool.false_and, Bool.and_false]
  rw [sees, hno]

theorem digitsValue_toDigits (n : Nat) : digitsValue 10 (Nat.toDigits 10 n) = n := by
  have hfold : ∀ l : List Char, (∀ c ∈ l, c.isDigit = true) → ∀ m,
      l.foldl (fun n c => n * 10 + digitValue c) m = Nat.ofDigitChars 10 l m := by
    intro l
    induction l with
    | nil => exact fun _ _ => rfl
    | cons c l ih =>
      intro hl m
      rw [List.forall_mem_cons] at hl
      rw [List.foldl_cons, ih hl.2, digitValue, if_pos hl.1, Nat.mul_comm, Nat.ofDigitChars_cons]
  rw [digitsValue, hfold _ (Json.isDigit_toDigits n), Nat.ofDigitChars_ten_toDigits]

theorem bounded_eq {n : Int} (hlow : -Nat.pow 2 63 ≤ n) (hhigh : n < Nat.pow 2 63) (s : List Char) :
    bounded n s = some (.integer n, s) := by
  rw [bounded, if_pos]
  · rfl
  · rw [Bool.and_eq_true, decide_eq_true_eq, decide_eq_true_eq]
    exact ⟨hlow, hhigh⟩

/-- Where no mark of another base and no moment stands in front, a number is what its digits say. -/
theorem number_eq {minus : Bool} {n : Nat} (hmoment : moment s = none)
    (hsees : ∀ mark ∈ ['x', 'o', 'b'], sees ['0', mark] s = some (false, s))
    (hsign : sign s = some (minus, Nat.toDigits 10 n ++ r)) (hr : Ends r) :
    (moment <|> float <|> integer) s = bounded (if minus then -n else n) r := by
  rw [orElse_none hmoment, orElse_none (float_none hsign hr), integer, bind_eq (hsees _ (by decide)),
    if_neg (by decide), bind_eq (hsees _ (by decide)), if_neg (by decide),
    bind_eq (hsees _ (by decide)), if_neg (by decide), bind_eq hsign,
    bind_eq (plainDigits_toDigits n hr), digitsValue_toDigits]

/-- What begins with a digit or a sign is a number or a moment. -/
theorem scalar_eq_number {c : Char} (hc : c.isDigit = true ∨ c = '-') (r : List Char) :
    scalar (c :: r) = (moment <|> float <|> integer) (c :: r) := by
  rw [scalar, bind_eq (peek_eq _), List.head?_cons]
  generalize hx : some c = x
  split
  · cases hx
    exact absurd rfl (Json.ne_of_begins hc (by decide))
  · cases hx
    exact absurd rfl (Json.ne_of_begins hc (by decide))
  · cases hx
    exact absurd rfl (Json.ne_of_begins hc (by decide))
  · cases hx
    exact absurd rfl (Json.ne_of_begins hc (by decide))
  · rfl

/-- What an integer is written as is no moment and no float. -/
theorem number_decimal (n : Int) (hr : Ends r) :
    (moment <|> float <|> integer) (Json.decimal n ++ r) = bounded n r := by
  cases n with
  | ofNat n =>
    have hdigits : Digits (Nat.toDigits 10 n ++ r) := digits_append (Json.isDigit_toDigits n) hr
    have hsign : sign (Nat.toDigits 10 n ++ r) = some (false, Nat.toDigits 10 n ++ r) := by
      obtain ⟨c, l, hd, hc⟩ := Json.toDigits_eq_cons n
      rw [hd]
      exact sign_none (stops_sign hc _)
    have hsees : ∀ mark ∈ ['x', 'o', 'b'],
        sees ['0', mark] (Nat.toDigits 10 n ++ r) = some (false, Nat.toDigits 10 n ++ r) := by
      intro mark hmark
      simp only [List.mem_cons, List.not_mem_nil, or_false] at hmark
      rcases hmark with rfl | rfl | rfl
      all_goals exact sees_zero hdigits rfl
    rw [Json.decimal, number_eq hdigits.moment_none hsees hsign hr]
    rfl
  | negSucc n =>
    have hsign : sign ('-' :: (Nat.toDigits 10 (n + 1) ++ r)) =
        some (true, Nat.toDigits 10 (n + 1) ++ r) := rfl
    rw [Json.decimal, List.cons_append, number_eq (moment_minus _) (fun mark _ => rfl) hsign hr]
    rfl

/-- **Integers of 64 bits.** -/
theorem isText_integer {n : Int} (hlow : -Nat.pow 2 63 ≤ n) (hhigh : n < Nat.pow 2 63) :
    IsText (.integer n) (Json.decimal n) := by
  obtain ⟨c, l, hdecimal, hc⟩ := Json.decimal_eq_cons n
  refine ⟨⟨c, l, hdecimal, ?_⟩, fun depth r hr => ?_⟩
  · rw [isBlank, Bool.or_eq_false_iff, beq_eq_false_iff_ne, beq_eq_false_iff_ne]
    exact ⟨Json.ne_of_begins hc (by decide), Json.ne_of_begins hc (by decide)⟩
  · rw [hdecimal, List.cons_append, value_eq_scalar (Json.ne_of_begins hc (by decide))
      (Json.ne_of_begins hc (by decide)), scalar_eq_number hc, ← List.cons_append, ← hdecimal,
      number_decimal n hr, bounded_eq hlow hhigh]

end Digits

/-! ## Texts -/

theorem hexDigit_lt : ∀ d < 16,
    isHexDigit (Json.hexDigit d) = true ∧ digitValue (Json.hexDigit d) = d := by
  decide

/-- A control character is given by its number. -/
theorem numbered_of_control {c : Char} (hc : c < ' ') (r : List Char) :
    numbered 4 ('0' :: '0' :: Json.hexDigit (c.toNat / 16) :: Json.hexDigit (c.toNat % 16) :: r) =
      some (c, r) := by
  have hlt : c.toNat < 32 := hc
  obtain ⟨hhigh, hhighValue⟩ := hexDigit_lt (c.toNat / 16) (by omega)
  obtain ⟨hlow, hlowValue⟩ := hexDigit_lt (c.toNat % 16) (by omega)
  have hcount : count isHexDigit 4
      ('0' :: '0' :: Json.hexDigit (c.toNat / 16) :: Json.hexDigit (c.toNat % 16) :: r) =
        some (['0', '0', Json.hexDigit (c.toNat / 16), Json.hexDigit (c.toNat % 16)], r) := by
    refine count_eq (l := ['0', '0', _, _]) ?_ r
    simp only [List.forall_mem_cons, hhigh, hlow]
    exact ⟨rfl, rfl, trivial, trivial, nofun⟩
  have hvalue : digitsValue 16 ['0', '0', Json.hexDigit (c.toNat / 16), Json.hexDigit (c.toNat % 16)] =
      c.toNat := by
    simp only [digitsValue, List.foldl_cons, List.foldl_nil, hhighValue, hlowValue]
    have hzero : digitValue '0' = 0 := rfl
    omega
  rw [numbered, bind_eq hcount, hvalue, dif_pos (c := c.toNat.isValidChar) c.valid]
  rfl

/-- **An escaped character is read back.** -/
theorem basicRest_escape (fuel : Nat) {c : Char} (hc : c ≠ '\x7f') (r : List Char) :
    basicRest (fuel + 1) (Json.escape c ++ r) = (basicRest fuel r).map fun p => (c :: p.1, p.2) := by
  have hrest : (basicRest fuel >>= fun l => pure (c :: l)) r =
      (basicRest fuel r).map fun p => (c :: p.1, p.2) := by
    cases h : basicRest fuel r with
    | none => exact bind_none h _
    | some x => exact bind_eq h
  have hbehind : ∀ {e : List Char}, escaped (e ++ r) = some (c, r) →
      basicRest (fuel + 1) ('\\' :: (e ++ r)) =
        (basicRest fuel r).map fun p => (c :: p.1, p.2) := by
    intro e he
    rw [basicRest, bind_eq (one_eq rfl _)]
    exact (bind_eq he).trans hrest
  unfold Json.escape
  split
  · exact hbehind (e := ['"']) rfl
  · exact hbehind (e := ['\\']) rfl
  · exact hbehind (e := ['b']) rfl
  · exact hbehind (e := ['f']) rfl
  · exact hbehind (e := ['n']) rfl
  · exact hbehind (e := ['r']) rfl
  · exact hbehind (e := ['t']) rfl
  · rename_i hquote hbackslash _ _ _ _ _
    split
    · rename_i hcontrol
      exact hbehind (e := ['u', '0', '0', Json.hexDigit (c.toNat / 16), Json.hexDigit (c.toNat % 16)])
        (numbered_of_control hcontrol r)
    · rename_i hcontrol
      have hprintable : isPrintable c = true := by
        simpa [isPrintable, hc] using .inr (Char.not_lt.mp hcontrol)
      rw [List.singleton_append, basicRest, bind_eq (one_eq hprintable _)]
      split
      · exact absurd rfl hquote
      · exact absurd rfl hbackslash
      · exact hrest

theorem basicRest_flatMap {fuel : Nat} {l r : List Char} (hl : ∀ c ∈ l, c ≠ '\x7f')
    (hfuel : l.length < fuel) :
    basicRest fuel (l.flatMap Json.escape ++ '"' :: r) = some (l, r) := by
  induction l generalizing fuel with
  | nil =>
    obtain ⟨fuel, rfl⟩ : ∃ n, fuel = n + 1 := ⟨fuel - 1, by simp at hfuel; omega⟩
    rfl
  | cons c l ih =>
    obtain ⟨fuel, rfl⟩ : ∃ n, fuel = n + 1 := ⟨fuel - 1, by simp at hfuel; omega⟩
    rw [List.forall_mem_cons] at hl
    rw [List.flatMap_cons, List.append_assoc, basicRest_escape fuel hl.1, ih hl.2 (by simpa using hfuel)]
    rfl

theorem exists_escape_cons (c : Char) : ∃ d l, Json.escape c = d :: l ∧ d ≠ '"' := by
  unfold Json.escape
  split
  case h_8 hquote _ _ _ _ _ _ =>
    split
    · exact ⟨'\\', _, rfl, by decide⟩
    · exact ⟨c, [], rfl, hquote⟩
  all_goals exact ⟨'\\', _, rfl, by decide⟩

/-- A text in double quotes does not open with three of them, even if it is empty. -/
theorem sees_quotes (s : String) {r : List Char} (hr : Ends r) :
    sees ['"', '"', '"'] (Json.quote s ++ r) = some (false, Json.quote s ++ r) := by
  have hno : List.isPrefixOf ['"', '"', '"'] (Json.quote s ++ r) = false := by
    rw [Json.quote]
    cases s.toList with
    | nil =>
      obtain ⟨c, r, rfl, rfl | rfl | rfl⟩ := hr
      all_goals rfl
    | cons c l =>
      obtain ⟨d, l', hescape, hd⟩ := exists_escape_cons c
      have hne : ('"' == d) = false := beq_eq_false_iff_ne.mpr hd.symm
      rw [List.flatMap_cons, hescape]
      show ('"' == '"' && ('"' == d && _)) = false
      rw [hne, Bool.false_and, Bool.and_false]
  rw [sees, hno]

/-- **Texts** without the character behind the tilde. -/
theorem isText_string {s : String} (hs : '\x7f' ∉ s.toList) : IsText (.string s) (Json.quote s) := by
  refine ⟨⟨'"', _, rfl, by decide⟩, fun depth r hr => ?_⟩
  have hquote : Json.quote s ++ r = '"' :: (s.toList.flatMap Json.escape ++ '"' :: r) := by
    rw [Json.quote, List.cons_append, List.cons_append, List.append_assoc, List.singleton_append]
  have hrest : basicRest ((s.toList.flatMap Json.escape ++ '"' :: r).length + 1)
      (s.toList.flatMap Json.escape ++ '"' :: r) = some (s.toList, r) := by
    refine basicRest_flatMap (fun c hc hmark => hs (hmark ▸ hc)) ?_
    have hlength := Json.length_le_flatMap_escape s.toList
    rw [List.length_append]
    omega
  have hbasic : basic (Json.quote s ++ r) = some (s, r) := by
    rw [hquote, basic, bind_eq (char_eq _ _)]
    show (enough >>= _) _ = _
    rw [bind_eq (a := (s.toList.flatMap Json.escape ++ '"' :: r).length + 1) rfl, bind_eq hrest,
      String.ofList_toList]
    rfl
  have htext : text (Json.quote s ++ r) = some (s, r) := by
    have hsingle : sees ['\'', '\'', '\''] (Json.quote s ++ r) = some (false, Json.quote s ++ r) := by
      rw [hquote]
      rfl
    rw [text, bind_eq (sees_quotes s hr), if_neg (by decide), bind_eq hsingle, if_neg (by decide)]
    show (basic _ <|> literal _) = _
    rw [hbasic]
    rfl
  have hscalar : scalar (Json.quote s ++ r) = some (.string s, r) :=
    bind_eq (f := fun t => pure (Value.string t)) htext
  rw [← hscalar, hquote, value_eq_scalar (by decide) (by decide)]

end SessionMux.Toml
