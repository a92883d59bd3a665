import SessionMux.Proofs.Gzip.Expansion

/-!
# Prefix codes, read back

The code of a symbol is told by the lengths of all codes: shorter codes come before longer ones, and
codes of one length count up in the order of their symbols. This module says what the code of a symbol
is, and that reading its bits comes to the symbol, wherever they stand and whatever stands behind them.

* `Spells` — the bits from a position on.
* `lowBits`, `bitsAt_of_spells` — a number, its least significant bit first.
* `PrefixCode.first`, `PrefixCode.below` — the first code of a length, and how many codes are shorter.
* `follow_of_spells` — following the bits of a code, by induction on the bits that are left.
* `codeWord` — the bits of the code of a symbol.
* **`read_of_spells`** — they are read back as the symbol.
-/

namespace SessionMux.Gzip

/-! ## Bits -/

/-- The bits from the position `p` on are those of the list. -/
def Spells (b : ByteArray) : Nat → List Bool → Prop
  | _, [] => True
  | p, x :: w => bitAt b p = .ok x.toNat ∧ Spells b (p + 1) w

section Bits

variable {b : ByteArray} {p : Nat}

theorem spells_append {v w : List Bool} :
    Spells b p (v ++ w) ↔ Spells b p v ∧ Spells b (p + v.length) w := by
  induction v generalizing p with
  | nil => exact ⟨fun h => ⟨trivial, h⟩, fun h => h.2⟩
  | cons x v ih =>
    rw [List.cons_append, Spells, Spells, ih, List.length_cons, and_assoc, Nat.add_right_comm,
      Nat.add_assoc]

/-- Bits that are there lie within the data. -/
theorem Spells.length_le {x : Bool} {w : List Bool} (h : Spells b p (x :: w)) :
    p + (x :: w).length ≤ 8 * b.size := by
  induction w generalizing p x with
  | nil => exact (bitAt_bounds h.1).1
  | cons y w ih =>
    have := ih h.2
    rw [List.length_cons]
    omega

/-- The `n` lowest bits of a number, the least significant one first. -/
def lowBits : Nat → Nat → List Bool
  | 0, _ => []
  | n + 1, v => decide (v % 2 = 1) :: lowBits n (v / 2)

theorem length_lowBits (n v : Nat) : (lowBits n v).length = n := by
  induction n generalizing v with
  | zero => rfl
  | succ n ih => rw [lowBits, List.length_cons, ih]

theorem toNat_odd (v : Nat) : (decide (v % 2 = 1)).toNat = v % 2 := by
  rcases Nat.mod_two_eq_zero_or_one v with h | h <;> rw [h] <;> rfl

/-- **A number is read back from its bits.** -/
theorem bitsAt_of_spells {n v : Nat} (h : Spells b p (lowBits n v)) (hv : v < 2 ^ n) :
    bitsAt b p n = .ok v := by
  induction n generalizing p v with
  | zero =>
    rw [Nat.pow_zero, Nat.lt_one_iff] at hv
    rw [hv]
    rfl
  | succ n ih =>
    obtain ⟨hbit, hrest⟩ := h
    have hhalf : v / 2 < 2 ^ n := by
      rw [Nat.pow_succ] at hv
      omega
    rw [bitsAt, hbit, ih hrest hhalf, toNat_odd]
    exact congrArg Except.ok (Nat.mod_add_div v 2)

/-- The `n` lowest bits of a code, the most significant one first. -/
def codeBits : Nat → Nat → List Bool
  | 0, _ => []
  | n + 1, v => decide (v / 2 ^ n % 2 = 1) :: codeBits n v

theorem length_codeBits (n v : Nat) : (codeBits n v).length = n := by
  induction n with
  | zero => rfl
  | succ n ih => rw [codeBits, List.length_cons, ih]

end Bits

namespace PrefixCode

/-! ## The codes of a length -/

/-- How many codes have the length `l`. -/
def count (c : PrefixCode) (l : Nat) : Nat := c.counts.getD l 0

/-- The first code of the length `l`: behind all shorter ones. -/
def first (c : PrefixCode) : Nat → Nat
  | 0 => 0
  | l + 1 => 2 * (c.first l + c.count l)

/-- How many codes are shorter than `l`. -/
def below (c : PrefixCode) : Nat → Nat
  | 0 => 0
  | l + 1 => c.below l + c.count l

variable {c : PrefixCode} {l v : Nat}

/-- The codes of a length, as beginnings of longer codes, come before all of these. -/
theorem first_add (c : PrefixCode) (l k : Nat) :
    (c.first l + c.count l) * 2 ^ (k + 1) ≤ c.first (l + (k + 1)) := by
  induction k with
  | zero => exact Nat.le_of_eq (by rw [first, Nat.pow_one, Nat.mul_comm])
  | succ k ih =>
    rw [← Nat.add_assoc l, first, Nat.pow_succ, ← Nat.mul_assoc]
    omega

/-- The part of the code space that codes up to a length use. -/
theorem foldl_used (c : PrefixCode) {k : Nat} (hk : k ≤ 15) :
    (List.range (k + 1)).foldl (fun sum l => sum + c.counts.getD l 0 * Nat.pow 2 (15 - l)) 0 =
      (c.first k + c.count k) * 2 ^ (15 - k) := by
  induction k with
  | zero =>
    show 0 + c.count 0 * 2 ^ 15 = (0 + c.count 0) * 2 ^ 15
    rw [Nat.zero_add, Nat.zero_add]
  | succ k ih =>
    have hpow : 2 ^ (15 - k) = 2 * 2 ^ (15 - (k + 1)) := by
      rw [← Nat.pow_succ']
      congr 1
      omega
    rw [List.range_succ, List.foldl_append, ih (by omega), List.foldl_cons, List.foldl_nil, first,
      hpow, Nat.pow_eq, ← Nat.mul_assoc, Nat.mul_comm _ 2, ← count, Nat.add_mul]

/-- **Where the code space suffices, every code fits in its length.** -/
theorem first_le (hused : c.used ≤ 2 ^ 15) (hl : l ≤ 15) : c.first l + c.count l ≤ 2 ^ l := by
  have hall : c.used = (c.first 15 + c.count 15) * 2 ^ (15 - 15) := c.foldl_used (Nat.le_refl 15)
  rw [Nat.sub_self, Nat.pow_zero, Nat.mul_one] at hall
  rcases Nat.lt_or_ge l 15 with hlt | hge
  · have hadd := c.first_add l (14 - l)
    have hplace : l + (14 - l + 1) = 15 := by omega
    have hpow : 2 ^ 15 = 2 ^ l * 2 ^ (14 - l + 1) := by
      rw [← Nat.pow_add, hplace]
    rw [hplace] at hadd
    refine Nat.le_of_mul_le_mul_right ?_ (Nat.two_pow_pos (14 - l + 1))
    rw [← hpow]
    omega
  · have heq : l = 15 := Nat.le_antisymm hl hge
    rw [heq]
    omega

/-! ## Following a code -/

/-- **Following the bits of a code** comes to its place among the symbols. The first `d` of its bits have
been read, and `r` are left. -/
theorem follow_of_spells {b : ByteArray} {d r p : Nat} (hd : d + r = l) (hr : 0 < r) (hl : l ≤ 15)
    (hle : c.first l ≤ v) (hlt : v < c.first l + c.count l)
    (hsparse : c.isSparse = true → v = 0 ∧ c.symbols.isEmpty = false)
    (h : Spells b p (codeBits r v)) :
    c.follow b (15 - d) (v / 2 ^ r) (c.first d + c.count d) (c.below (d + 1)) p =
      .ok (c.symbols.getD (c.below l + (v - c.first l)) 0, p + r) := by
  induction r generalizing d p with
  | zero => exact absurd hr (Nat.lt_irrefl 0)
  | succ r ih =>
    obtain ⟨hbit, hrest⟩ := h
    have hmore : 15 - d = 15 - (d + 1) + 1 := by omega
    have hplace : 15 - (15 - (d + 1)) = d + 1 := by omega
    have hcode : 2 * (v / 2 ^ (r + 1)) + v / 2 ^ r % 2 = v / 2 ^ r := by
      rw [Nat.pow_succ, ← Nat.div_div_eq_div_mul]
      exact Nat.div_add_mod (v / 2 ^ r) 2
    have hdense : (c.isSparse && (v / 2 ^ r % 2 = 1 || c.symbols.isEmpty)) = false := by
      cases hs : c.isSparse with
      | false => rfl
      | true =>
        obtain ⟨rfl, hsymbols⟩ := hsparse hs
        rw [Nat.zero_div, hsymbols]
        rfl
    have hfirst : 2 * (c.first d + c.count d) = c.first (d + 1) := rfl
    rw [hmore, follow, hbit, toNat_odd]
    simp only [bind, Except.bind, hdense, Bool.false_eq_true, if_false, hplace, hcode, hfirst]
    rw [← count]
    cases r with
    | zero =>
      -- the last bit
      rw [Nat.add_zero] at hd
      rw [hd, Nat.pow_zero, Nat.div_one, if_pos hlt]
    | succ r =>
      have hbehind := c.first_add (d + 1) r
      rw [show d + 1 + (r + 1) = l from by omega] at hbehind
      have hover : ¬ v / 2 ^ (r + 1) < c.first (d + 1) + c.count (d + 1) := by
        rw [Nat.not_lt, Nat.le_div_iff_mul_le (Nat.two_pow_pos (r + 1))]
        exact Nat.le_trans hbehind hle
      have hend : p + (r + 1 + 1) = p + 1 + (r + 1) := by omega
      rw [if_neg hover, hend]
      exact ih (by omega) (Nat.succ_pos r) hrest

/-! ## Codes from lengths -/

section Lengths

variable {lengths : Array Nat} {s : Nat}

/-- The symbols below `n` whose codes have the length `l`, in order. -/
def symbolsOf (lengths : Array Nat) (l n : Nat) : List Nat :=
  (List.range n).filter fun s => lengths.getD s 0 = l

/-- The symbol has a code of at most 15 bits. -/
structure HasCode (lengths : Array Nat) (s : Nat) : Prop where
  pos : 0 < lengths.getD s 0
  le : lengths.getD s 0 ≤ 15

/-- **The code of a symbol**: so many behind the first of its length as there are earlier symbols with
codes of this length. -/
def codeOf (lengths : Array Nat) (s : Nat) : Nat :=
  (ofLengths lengths).first (lengths.getD s 0) + (symbolsOf lengths (lengths.getD s 0) s).length

/-- **The bits of the code of a symbol**, in the order in which they are written. -/
def codeWord (lengths : Array Nat) (s : Nat) : List Bool :=
  codeBits (lengths.getD s 0) (codeOf lengths s)

theorem length_codeWord (lengths : Array Nat) (s : Nat) :
    (codeWord lengths s).length = lengths.getD s 0 := length_codeBits _ _

theorem HasCode.lt_size (h : HasCode lengths s) : s < lengths.size := by
  rcases Nat.lt_or_ge s lengths.size with hlt | hge
  · exact hlt
  · have hpos := h.pos
    rw [Array.getD_eq_getD_getElem?, Array.getElem?_eq_none hge] at hpos
    exact absurd hpos (Nat.lt_irrefl 0)

theorem symbolsOf_split {l n : Nat} (hs : s < n) (hl : lengths.getD s 0 = l) :
    ∃ rest, symbolsOf lengths l n = symbolsOf lengths l s ++ s :: rest := by
  obtain ⟨k, rfl⟩ : ∃ k, n = s + (k + 1) := ⟨n - s - 1, by omega⟩
  rw [symbolsOf, List.range_add, List.filter_append, List.range_succ_eq_map, List.map_cons,
    List.filter_cons_of_pos (by simpa using hl)]
  exact ⟨_, rfl⟩

theorem toList_eq_map (lengths : Array Nat) :
    lengths.toList = (List.range lengths.size).map fun s => lengths.getD s 0 := by
  refine List.ext_getElem (by simp) fun i h h' => ?_
  rw [Array.length_toList] at h
  simp [h]

theorem length_symbolsOf (lengths : Array Nat) (l : Nat) :
    (symbolsOf lengths l lengths.size).length = lengths.count l := by
  rw [← Array.count_toList, toList_eq_map, List.count, List.countP_map, symbolsOf,
    ← List.countP_eq_length_filter]
  congr 1

/-- The symbols whose codes have a length, in order; no code has the length zero. -/
def symbolsAt (lengths : Array Nat) (l : Nat) : List Nat :=
  if l = 0 then [] else symbolsOf lengths l lengths.size

theorem length_symbolsAt {l : Nat} (hl : l < 16) :
    (symbolsAt lengths l).length = (ofLengths lengths).count l := by
  have hcount : (ofLengths lengths).count l = if l = 0 then 0 else lengths.count l := by
    simp [count, ofLengths, hl]
  rw [hcount, symbolsAt]
  split
  · rfl
  · exact length_symbolsOf lengths l

theorem toList_symbols (lengths : Array Nat) :
    (ofLengths lengths).symbols.toList = (List.range 16).flatMap (symbolsAt lengths) := by
  rw [ofLengths, Array.toList_flatMap, Array.toList_range]
  congr 1
  funext l
  rw [symbolsAt]
  split
  · rfl
  · rw [Array.toList_filter, Array.toList_range, symbolsOf]

/-- The symbols with codes shorter than `l` come first. -/
theorem length_flatMap_symbolsAt {l : Nat} (hl : l ≤ 16) :
    ((List.range l).flatMap (symbolsAt lengths)).length = (ofLengths lengths).below l := by
  induction l with
  | zero => rfl
  | succ l ih =>
    rw [List.range_succ, List.flatMap_append, List.length_append, ih (by omega), List.flatMap_singleton,
      length_symbolsAt (by omega), below]

/-- **Where the symbol stands** among those of all codes. -/
theorem getD_symbols (h : HasCode lengths s) :
    (ofLengths lengths).symbols.getD ((ofLengths lengths).below (lengths.getD s 0) +
      (symbolsOf lengths (lengths.getD s 0) s).length) 0 = s := by
  obtain ⟨l, hl⟩ : ∃ l, lengths.getD s 0 = l := ⟨_, rfl⟩
  have hle := h.le
  have hpos := h.pos
  rw [hl] at hle hpos ⊢
  obtain ⟨rest, hrest⟩ := symbolsOf_split h.lt_size hl
  obtain ⟨k, hk⟩ : ∃ k, 16 = l + (k + 1) := ⟨15 - l, by omega⟩
  have hat : symbolsAt lengths l = symbolsOf lengths l s ++ s :: rest := by
    rw [symbolsAt, if_neg (by omega), hrest]
  have hlist : ∃ more, (ofLengths lengths).symbols.toList =
      (List.range l).flatMap (symbolsAt lengths) ++ (symbolsOf lengths l s ++ s :: more) := by
    rw [toList_symbols, hk, List.range_add, List.range_succ_eq_map, List.map_cons, List.flatMap_append,
      List.flatMap_cons, Nat.add_zero, hat]
    simp only [List.append_assoc, List.cons_append]
    exact ⟨_, rfl⟩
  obtain ⟨more, hmore⟩ := hlist
  rw [Array.getD_eq_getD_getElem?, ← Array.getElem?_toList, hmore, ← length_flatMap_symbolsAt (by omega),
    List.getElem?_append_right (Nat.le_add_right _ _), Nat.add_sub_cancel_left,
    List.getElem?_append_right (Nat.le_refl _), Nat.sub_self]
  rfl

/-- A symbol with a code is counted among the codes of its length. -/
theorem length_lt_count (h : HasCode lengths s) :
    (symbolsOf lengths (lengths.getD s 0) s).length < (ofLengths lengths).count (lengths.getD s 0) := by
  have hpos := h.pos
  have hle := h.le
  obtain ⟨rest, hrest⟩ := symbolsOf_split h.lt_size (l := lengths.getD s 0) rfl
  rw [← length_symbolsAt (by omega), symbolsAt, if_neg (by omega), hrest, List.length_append,
    List.length_cons]
  omega

theorem below_le (c : PrefixCode) {l l' : Nat} (h : l ≤ l') : c.below l ≤ c.below l' := by
  induction h with
  | refl => exact Nat.le_refl _
  | step _ ih => exact Nat.le_trans ih (Nat.le_add_right _ _)

theorem first_of_below {c : PrefixCode} {l : Nat} (h : c.below l = 0) : c.first l = 0 := by
  induction l with
  | zero => rfl
  | succ l ih =>
    rw [below] at h
    rw [first, ih (by omega)]
    omega

/-- The only code there is consists of zeros. -/
theorem codeOf_of_isSparse (h : HasCode lengths s) (hsparse : (ofLengths lengths).isSparse = true) :
    codeOf lengths s = 0 ∧ (ofLengths lengths).symbols.isEmpty = false := by
  have hlt := length_lt_count h
  have hle := h.le
  have hsize : (ofLengths lengths).symbols.size = (ofLengths lengths).below 16 := by
    rw [← Array.length_toList, toList_symbols, length_flatMap_symbolsAt (Nat.le_refl 16)]
  have hone : (ofLengths lengths).below 16 ≤ 1 := by
    rw [← hsize]
    exact of_decide_eq_true hsparse
  have hnext : (ofLengths lengths).below (lengths.getD s 0 + 1) ≤ (ofLengths lengths).below 16 :=
    below_le _ (by omega)
  rw [below] at hnext
  constructor
  · rw [codeOf, first_of_below (by omega)]
    omega
  · rw [Array.isEmpty, hsize]
    exact decide_eq_false (by omega)

/-- A code that a block may use: every bit string begins with a code, or there is one code at most. -/
theorem codeOf_lt (h : HasCode lengths s) (hu : (ofLengths lengths).isUsable = true) :
    codeOf lengths s < 2 ^ lengths.getD s 0 := by
  rw [isUsable, Bool.or_eq_true] at hu
  rcases hu with hcomplete | hsparse
  · have hused : (ofLengths lengths).used ≤ 2 ^ 15 := Nat.le_of_eq (of_decide_eq_true hcomplete)
    have hfirst := first_le hused h.le
    have hlt := length_lt_count h
    rw [codeOf]
    omega
  · rw [(codeOf_of_isSparse h hsparse).1]
    exact Nat.two_pow_pos _

/-- **The code of a symbol is read back.** -/
theorem read_of_spells {b : ByteArray} {p : Nat} (h : HasCode lengths s)
    (hu : (ofLengths lengths).isUsable = true) (hb : Spells b p (codeWord lengths s)) :
    (ofLengths lengths).read b p = .ok (s, p + lengths.getD s 0) := by
  have hlt := length_lt_count h
  have hzero : codeOf lengths s / 2 ^ lengths.getD s 0 = 0 := Nat.div_eq_of_lt (codeOf_lt h hu)
  have hcount : (ofLengths lengths).count 0 = 0 := (length_symbolsAt (by decide)).symm
  have hfollow := follow_of_spells (c := ofLengths lengths) (d := 0) (v := codeOf lengths s)
    (Nat.zero_add _) h.pos h.le (Nat.le_add_right _ _) (Nat.add_lt_add_left hlt _)
    (codeOf_of_isSparse h) hb
  rw [hzero, below, hcount, codeOf, Nat.add_sub_cancel_left, getD_symbols h] at hfollow
  exact hfollow

/-- Shorter codes come first, and codes of one length in the order of their symbols. -/
example : (List.range 4).map (codeWord #[2, 1, 3, 3]) =
    [[true, false], [false], [true, true, false], [true, true, true]] := by decide +kernel

end Lengths

end PrefixCode

end SessionMux.Gzip
