import SessionMux.Base64
import SessionMux.Proofs.Octets

/-!
# Base64, there and back

`text` is the canonical text of a list of bytes: four symbols for each three bytes, and for one or
two bytes at the end a group that is filled up with the pad. The encoder writes it
(`toList_encode`), and the decoder takes it back.

* `text` — the canonical text, by recursion on the bytes.
* `byte_ext` — two bytes with the same bits are the same; it settles the shifts and masks.
* `readTail_group` — the last group is read as its symbols and its pads.
* **`decode_text`** — the canonical text of some bytes stands for them.
* **`decode_encode`** — so does what the encoder writes.
-/

namespace SessionMux.Base64

open Octets

/-- The canonical text of some bytes. -/
def text : List UInt8 → List UInt8
  | [] => []
  | [x] => [symbol (x >>> 2), symbol ((x &&& 3) <<< 4), pad, pad]
  | [x, y] =>
    [symbol (x >>> 2), symbol ((x &&& 3) <<< 4 ||| y >>> 4), symbol ((y &&& 15) <<< 2), pad]
  | x :: y :: z :: rest =>
    symbol (x >>> 2) :: symbol ((x &&& 3) <<< 4 ||| y >>> 4) ::
      symbol ((y &&& 15) <<< 2 ||| z >>> 6) :: symbol (z &&& 63) :: text rest

/-! ## Bits and symbols -/

theorem byte_ext {a b : UInt8} (h₀ : a.toBitVec[0] = b.toBitVec[0])
    (h₁ : a.toBitVec[1] = b.toBitVec[1]) (h₂ : a.toBitVec[2] = b.toBitVec[2])
    (h₃ : a.toBitVec[3] = b.toBitVec[3]) (h₄ : a.toBitVec[4] = b.toBitVec[4])
    (h₅ : a.toBitVec[5] = b.toBitVec[5]) (h₆ : a.toBitVec[6] = b.toBitVec[6])
    (h₇ : a.toBitVec[7] = b.toBitVec[7]) : a = b := by
  apply UInt8.toBitVec_inj.1
  ext i hi
  have hcases : i = 0 ∨ i = 1 ∨ i = 2 ∨ i = 3 ∨ i = 4 ∨ i = 5 ∨ i = 6 ∨ i = 7 := by omega
  rcases hcases with rfl | rfl | rfl | rfl | rfl | rfl | rfl | rfl <;> assumption

/-- Six bits. -/
def Six (v : UInt8) : Prop := v &&& 63 = v

/-- The two bits above the six are zero. -/
theorem Six.bits {p : UInt8} (h : Six p) : p.toBitVec[6] = false ∧ p.toBitVec[7] = false := by
  constructor
  · rw [← h]
    simp
  · rw [← h]
    simp

/-- A bit of the mask is no bit of what has nothing in common with the mask. -/
theorem bit_of_and {v mask : UInt8} (h : v &&& mask = 0) {i : Nat} (hi : i < 8)
    (hbit : mask.toBitVec[i] = true) : v.toBitVec[i] = false := by
  have hand : (v &&& mask).toBitVec[i] = false := by
    rw [h]
    simp
  simpa [hbit] using hand

/-- Spare bits of a symbol before two pads. -/
theorem low_four {q : UInt8} (h : q &&& 15 = 0) : q.toBitVec[0] = false ∧ q.toBitVec[1] = false ∧
    q.toBitVec[2] = false ∧ q.toBitVec[3] = false :=
  ⟨bit_of_and h (by decide) rfl, bit_of_and h (by decide) rfl, bit_of_and h (by decide) rfl,
    bit_of_and h (by decide) rfl⟩

/-- Spare bits of a symbol before one pad. -/
theorem low_two {r : UInt8} (h : r &&& 3 = 0) : r.toBitVec[0] = false ∧ r.toBitVec[1] = false :=
  ⟨bit_of_and h (by decide) rfl, bit_of_and h (by decide) rfl⟩

theorem six_first (x : UInt8) : Six (x >>> 2) := by
  apply byte_ext <;> simp

theorem six_second (x y : UInt8) : Six ((x &&& 3) <<< 4 ||| y >>> 4) := by
  apply byte_ext <;> simp

theorem six_third (y z : UInt8) : Six ((y &&& 15) <<< 2 ||| z >>> 6) := by
  apply byte_ext <;> simp

theorem six_fourth (z : UInt8) : Six (z &&& 63) := by
  apply byte_ext <;> simp

theorem six_secondLast (x : UInt8) : Six ((x &&& 3) <<< 4) := by
  apply byte_ext <;> simp

theorem six_thirdLast (y : UInt8) : Six ((y &&& 15) <<< 2) := by
  apply byte_ext <;> simp

theorem byte_first (x y : UInt8) :
    (x >>> 2) <<< 2 ||| ((x &&& 3) <<< 4 ||| y >>> 4) >>> 4 = x := by
  apply byte_ext <;> simp

theorem byte_second (x y z : UInt8) :
    ((x &&& 3) <<< 4 ||| y >>> 4) <<< 4 ||| ((y &&& 15) <<< 2 ||| z >>> 6) >>> 2 = y := by
  apply byte_ext <;> simp

theorem byte_third (y z : UInt8) :
    ((y &&& 15) <<< 2 ||| z >>> 6) <<< 6 ||| (z &&& 63) = z := by
  apply byte_ext <;> simp

theorem byte_firstLast (x : UInt8) : (x >>> 2) <<< 2 ||| ((x &&& 3) <<< 4) >>> 4 = x := by
  apply byte_ext <;> simp

theorem byte_secondLast (x y : UInt8) :
    ((x &&& 3) <<< 4 ||| y >>> 4) <<< 4 ||| ((y &&& 15) <<< 2) >>> 2 = y := by
  apply byte_ext <;> simp

theorem spare_secondLast (x : UInt8) : (x &&& 3) <<< 4 &&& 15 = 0 := by
  apply byte_ext <;> simp

theorem spare_thirdLast (y : UInt8) : (y &&& 15) <<< 2 &&& 3 = 0 := by
  apply byte_ext <;> simp

/-- Every symbol is an ASCII byte and not the pad, and stands for its six bits. -/
theorem symbol_table : ∀ n < 64, value? (symbol (UInt8.ofNat n)) = some (UInt8.ofNat n) ∧
    symbol (UInt8.ofNat n) ≠ pad ∧ (symbol (UInt8.ofNat n)).toNat < 128 := by decide

theorem symbol_of_six {v : UInt8} (h : Six v) :
    value? (symbol v) = some v ∧ symbol v ≠ pad ∧ (symbol v).toNat < 128 := by
  have hlt : v.toNat < 64 := by
    rw [← h, UInt8.toNat_and]
    exact Nat.lt_of_le_of_lt Nat.and_le_right (by decide)
  have htable := symbol_table v.toNat hlt
  rwa [UInt8.ofNat_toNat] at htable

/-! ## Writing -/

theorem toList_put (s : String) {c : UInt8} (h : c.toNat < 128) :
    toList (put s c).toUTF8 = toList s.toUTF8 ++ [c] := by
  have hval : (Char.ofUInt8 c).val.toUInt8 = c := by
    rw [show (Char.ofUInt8 c).val = c.toUInt32 from rfl]
    simp
  have hsize : (Char.ofUInt8 c).utf8Size = 1 := by
    have hle : (Char.ofUInt8 c).val ≤ 127 := by
      rw [UInt32.le_iff_toNat_le, show (Char.ofUInt8 c).val = c.toUInt32 from rfl,
        UInt8.toNat_toUInt32]
      exact Nat.le_of_lt_succ h
    exact Char.utf8Size_eq_one_iff.mpr hle
  rw [put, toList_push, String.utf8EncodeChar_eq_singleton hsize, hval]

theorem toList_encodeFrom (b : ByteArray) (i : Nat) (s : String) :
    toList (encodeFrom b i s).toUTF8 = toList s.toUTF8 ++ text ((toList b).drop i) := by
  have hget : ∀ k (h : k < b.size), (toList b).drop k = b[k] :: (toList b).drop (k + 1) :=
    fun k h => List.drop_eq_getElem_cons (show k < (toList b).length from h)
  have hend : ∀ k, b.size ≤ k → (toList b).drop k = [] := fun k h =>
    List.drop_eq_nil_of_le (show (toList b).length ≤ k from h)
  fun_induction encodeFrom b i s with
  | case1 i s h x y z ih =>
    rw [hget i (by omega), hget (i + 1) (by omega), hget (i + 2) h, text, ih,
      toList_put _ (symbol_of_six (six_fourth z)).2.2, toList_put _ (symbol_of_six (six_third y z)).2.2,
      toList_put _ (symbol_of_six (six_second x y)).2.2, toList_put _ (symbol_of_six (six_first x)).2.2]
    simp only [List.append_assoc, List.singleton_append]
    rfl
  | case2 i s h h' x y =>
    rw [hget i (by omega), hget (i + 1) h', hend (i + 2) (by omega), text, toList_put _ (by decide),
      toList_put _ (symbol_of_six (six_thirdLast y)).2.2,
      toList_put _ (symbol_of_six (six_second x y)).2.2, toList_put _ (symbol_of_six (six_first x)).2.2]
    simp only [List.append_assoc, List.singleton_append]
    rfl
  | case3 i s h h' h'' x =>
    rw [hget i h'', hend (i + 1) (by omega), text, toList_put _ (by decide), toList_put _ (by decide),
      toList_put _ (symbol_of_six (six_secondLast x)).2.2,
      toList_put _ (symbol_of_six (six_first x)).2.2]
    simp only [List.append_assoc, List.singleton_append]
    rfl
  | case4 i s h h' h'' =>
    rw [hend i (by omega), text, List.append_nil]

/-- **The encoder writes the canonical text.** -/
theorem toList_encode (b : ByteArray) : toList (encode b).toUTF8 = text (toList b) := by
  rw [encode, toList_encodeFrom, List.drop_zero]
  rfl

theorem length_text (l : List UInt8) : (text l).length = (l.length + 2) / 3 * 4 := by
  fun_induction text l with
  | case1 => rfl
  | case2 x => simp only [List.length_cons, List.length_nil, Nat.reduceAdd, Nat.reduceDiv, Nat.reduceMul]
  | case3 x y =>
    simp only [List.length_cons, List.length_nil, Nat.reduceAdd, Nat.reduceDiv, Nat.reduceMul]
  | case4 x y z rest ih =>
    simp only [List.length_cons, ih]
    omega

/-! ## Reading the last group -/

section Reading

variable {b : ByteArray} {i : Nat} {r : List UInt8}

theorem readTail_end {offset : Nat} {t : Tail} (h : b.size ≤ i) : readTail b i offset t = .ok t := by
  rw [readTail, dif_neg (by omega)]

/-- Symbols are read one after another, as long as no pad has come. -/
theorem readTail_symbols (offset : Nat) {t : Tail} {values : List UInt8}
    (hsix : ∀ v ∈ values, Six v) (ht : t.pads = 0) (h : (toList b).drop i = values.map symbol ++ r) :
    ∃ last, readTail b i offset t = readTail b (i + values.length) (offset + values.length)
      { t with values := t.values ++ values, last } := by
  induction values generalizing i offset t with
  | nil => exact ⟨t.last, by rw [List.append_nil]; rfl⟩
  | cons v values ih =>
    obtain ⟨hi, hc, hrest⟩ := getElem_of_drop h
    obtain ⟨hval, hpad, -⟩ := symbol_of_six (hsix v List.mem_cons_self)
    have hread : readTail b i offset t =
        readTail b (i + 1) (offset + 1) { t with values := t.values ++ [v], last := symbol v } := by
      rw [readTail, dif_pos hi]
      simp only [hc, if_neg hpad, ht, ne_eq, not_true_eq_false, if_false, hval]
    obtain ⟨last, hlast⟩ := ih (offset + 1) (t := { t with values := t.values ++ [v], last := symbol v })
      (fun u hu => hsix u (List.mem_cons_of_mem v hu)) ht hrest
    refine ⟨last, ?_⟩
    rw [hread, hlast, List.append_assoc, List.length_cons, Nat.add_assoc, Nat.add_assoc,
      Nat.add_comm 1]
    rfl

/-- Pads are read to the end of the text, if two symbols stand before them. -/
theorem readTail_pads {offset pads : Nat} (t : Tail) (ho : 2 ≤ offset)
    (h : (toList b).drop i = List.replicate pads pad) :
    ∃ firstPad, readTail b i offset t = .ok { t with firstPad, pads := t.pads + pads } := by
  induction pads generalizing i offset t with
  | zero =>
    have hend := congrArg List.length h
    rw [List.length_drop, length_toList, List.replicate_zero, List.length_nil] at hend
    exact ⟨t.firstPad, readTail_end (by omega)⟩
  | succ pads ih =>
    obtain ⟨hi, hc, hrest⟩ := getElem_of_drop h
    obtain ⟨firstPad, hread⟩ := ih
      { t with firstPad := if t.pads = 0 then i else t.firstPad, pads := t.pads + 1 }
      (show 2 ≤ offset + 1 by omega) hrest
    refine ⟨firstPad, ?_⟩
    rw [readTail, dif_pos hi, if_pos hc, if_neg (by omega), hread, Nat.add_assoc, Nat.add_comm 1]

/-- **The last group is read as its symbols and its pads.** -/
theorem readTail_group (values : List UInt8) (pads : Nat) (htwo : 2 ≤ values.length)
    (hsix : ∀ v ∈ values, Six v)
    (h : (toList b).drop i = values.map symbol ++ List.replicate pads pad) :
    ∃ last firstPad, readTail b i 0 {} = .ok { values, last, firstPad, pads } := by
  obtain ⟨last, hsymbols⟩ := readTail_symbols 0 (t := {}) hsix rfl h
  have hbehind := drop_of_drop h
  rw [List.length_map] at hbehind
  obtain ⟨firstPad, hpads⟩ := readTail_pads { values, last } htwo hbehind
  refine ⟨last, firstPad, ?_⟩
  rw [Nat.zero_add] at hsymbols
  rw [hsymbols]
  exact hpads.trans (by rw [Nat.zero_add])

/-- A last group of three bytes. -/
theorem finish_three {x y z : UInt8} (h : (toList b).drop i = text [x, y, z]) (out : ByteArray) :
    finish b i out = .ok (out ++ ofList [x, y, z]) := by
  obtain ⟨last, firstPad, hread⟩ := readTail_group
    [x >>> 2, (x &&& 3) <<< 4 ||| y >>> 4, (y &&& 15) <<< 2 ||| z >>> 6, z &&& 63] 0
    (by simp) (by simp [six_first, six_second, six_third, six_fourth]) h
  rw [finish, hread]
  show (if b.size ≠ 0 ∧ 4 < 2 then _ else if (4 + 0) % 4 ≠ 0 then _ else _) = _
  rw [if_neg (by omega), if_neg (by omega)]
  show Except.ok (((out.push _).push _).push _) = _
  rw [byte_first, byte_second, byte_third, push_three]

/-- A last group of two bytes and a pad. -/
theorem finish_two {x y : UInt8} (h : (toList b).drop i = text [x, y]) (out : ByteArray) :
    finish b i out = .ok (out ++ ofList [x, y]) := by
  obtain ⟨last, firstPad, hread⟩ := readTail_group
    [x >>> 2, (x &&& 3) <<< 4 ||| y >>> 4, (y &&& 15) <<< 2] 1
    (by simp) (by simp [six_first, six_second, six_thirdLast]) h
  rw [finish, hread]
  show (if b.size ≠ 0 ∧ 3 < 2 then _ else if (3 + 1) % 4 ≠ 0 then _ else
    if (y &&& 15) <<< 2 &&& 3 ≠ 0 then _ else _) = _
  rw [if_neg (by omega), if_neg (by omega), if_neg (not_not_intro (spare_thirdLast y))]
  show Except.ok ((out.push _).push _) = _
  rw [byte_first, byte_secondLast, push_two]

/-- A last group of one byte and two pads. -/
theorem finish_one {x : UInt8} (h : (toList b).drop i = text [x]) (out : ByteArray) :
    finish b i out = .ok (out ++ ofList [x]) := by
  obtain ⟨last, firstPad, hread⟩ := readTail_group
    [x >>> 2, (x &&& 3) <<< 4] 2 (by simp) (by simp [six_first, six_secondLast]) h
  rw [finish, hread]
  show (if b.size ≠ 0 ∧ 2 < 2 then _ else if (2 + 2) % 4 ≠ 0 then _ else
    if (x &&& 3) <<< 4 &&& 15 ≠ 0 then _ else _) = _
  rw [if_neg (by omega), if_neg (by omega), if_neg (not_not_intro (spare_secondLast x))]
  show Except.ok (out.push _) = _
  rw [byte_firstLast, push_eq]

/-! ## Reading all groups -/

/-- **A text is read group by group.** -/
theorem decodeFrom_text (l : List UInt8) (hl : l ≠ []) (i : Nat) (h : (toList b).drop i = text l)
    (out : ByteArray) : decodeFrom b i out = .ok (out ++ ofList l) := by
  fun_induction text l generalizing i out with
  | case1 => exact absurd rfl hl
  | case2 x =>
    rw [decodeFrom, dif_neg (by rw [size_of_drop h (by simp)]; simp)]
    exact finish_one h out
  | case3 x y =>
    rw [decodeFrom, dif_neg (by rw [size_of_drop h (by simp)]; simp)]
    exact finish_two h out
  | case4 x y z rest ih =>
    by_cases hrest : rest = []
    · subst hrest
      rw [decodeFrom, dif_neg (by rw [size_of_drop h (by simp)]; simp [text])]
      exact finish_three h out
    · have hlen : 0 < (text rest).length := by
        have := List.length_pos_iff.mpr hrest
        rw [length_text]
        omega
      have hsize := size_of_drop h (by simp)
      rw [List.length_cons, List.length_cons, List.length_cons, List.length_cons] at hsize
      obtain ⟨_, e₀, h₁⟩ := getElem_of_drop h
      obtain ⟨_, e₁, h₂⟩ := getElem_of_drop h₁
      obtain ⟨_, e₂, h₃⟩ := getElem_of_drop h₂
      obtain ⟨_, e₃, h₄⟩ := getElem_of_drop h₃
      rw [decodeFrom, dif_pos (by omega)]
      simp only [e₀, e₁, e₂, e₃, (symbol_of_six (six_first x)).1, (symbol_of_six (six_second x y)).1,
        (symbol_of_six (six_third y z)).1, (symbol_of_six (six_fourth z)).1]
      rw [ih hrest (i + 4) h₄, byte_first, byte_second, byte_third, push_three, append_ofList]
      rfl

end Reading

/-- **The canonical text of some bytes stands for them.** -/
theorem decode_text {b : ByteArray} {l : List UInt8} (h : toList b = text l) :
    decode b = .ok (ofList l) := by
  have hsize : b.size = (l.length + 2) / 3 * 4 := by
    rw [← Octets.length_toList, h, length_text]
  have hstray : strayEnd? b = none := by
    rw [strayEnd?, dif_neg (by omega)]
  rw [decode, hstray]
  show decodeFrom b 0 _ = _
  by_cases hl : l = []
  · subst hl
    have hzero : b.size = 0 := by rw [hsize]; rfl
    rw [decodeFrom, dif_neg (by omega), finish, readTail_end (by omega)]
    show (if b.size ≠ 0 ∧ 0 < 2 then _ else _) = _
    rw [if_neg (by omega)]
    rfl
  · rw [decodeFrom_text l hl 0 h]
    exact congrArg Except.ok ByteArray.empty_append

/-- **What the encoder writes is read back.** -/
theorem decode_encode (b : ByteArray) : decode (encode b).toUTF8 = .ok b :=
  decode_text (toList_encode b)

end SessionMux.Base64
