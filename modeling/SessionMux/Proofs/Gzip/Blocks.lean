import Mathlib.Data.List.Chain
import SessionMux.Proofs.Gzip
import SessionMux.Proofs.Gzip.Codes

/-!
# Compressed data, read back

Whoever compresses has many choices: which copies to make, which codes to use and how to write them,
and where to cut the data into blocks. This module says what may be written for given bytes, as relations
between what is meant and the bits that say so, and that reading comes to what is meant, whatever has
been chosen.

* `Token`, `Writes`, **`readSymbols_of_writes`** — the symbols of a block, with codes of any lengths.
* `WritesLengths`, `CodeTable`, **`readCodes_of_writes`** — the codes that a block brings along.
* **`exists_writes`** — everything that the format has can be written with the fixed codes.
* `Block`, `Holds`, **`readBlock_of_holds`** — a block of any kind.
* `HoldsAll`, **`inflate_of_holdsAll`** — all blocks.
-/

namespace SessionMux.Gzip

open Octets PrefixCode

variable {b : ByteArray} {p : Nat}

/-! ## The symbols of a block -/

/-- What a symbol of a block, with what belongs to it, stands for. -/
inductive Token where
  | byte (c : UInt8)
  /-- So many bytes, each a copy of the one `distance` before it. -/
  | copy (length distance : Nat)

/-- What has come out after one token more. -/
def Token.apply (out : ByteArray) : Token → ByteArray
  | .byte c => out.push c
  | .copy length distance => copyBack distance length out

/-- **The bits write the tokens** and the end of the block, with codes of the given lengths. -/
inductive Writes (literals distances : Array Nat) : List Token → List Bool → Prop where
  | stop (code : HasCode literals 256) : Writes literals distances [] (codeWord literals 256)
  | byte {tokens : List Token} {w : List Bool} (c : UInt8) (code : HasCode literals c.toNat)
      (rest : Writes literals distances tokens w) :
      Writes literals distances (.byte c :: tokens) (codeWord literals c.toNat ++ w)
  | copy {tokens : List Token} {w : List Bool} {k lengthBase lengthExtra more : Nat}
      {d distanceBase distanceExtra further : Nat}
      (length : lengthTable[k]? = some (lengthBase, lengthExtra)) (more_lt : more < 2 ^ lengthExtra)
      (distance : distanceTable[d]? = some (distanceBase, distanceExtra))
      (further_lt : further < 2 ^ distanceExtra)
      (lengthCode : HasCode literals (257 + k)) (distanceCode : HasCode distances d)
      (rest : Writes literals distances tokens w) :
      Writes literals distances (.copy (lengthBase + more) (distanceBase + further) :: tokens)
        (codeWord literals (257 + k) ++ ((lowBits lengthExtra more ++
          (codeWord distances d ++ lowBits distanceExtra further)) ++ w))

section Symbols

variable {literals distances : Array Nat}

/-- The rest of a copy is read back. -/
theorem readCopy_of_spells {k lengthBase lengthExtra more d distanceBase distanceExtra further : Nat}
    (hu : (ofLengths distances).isUsable = true)
    (hlength : lengthTable[k]? = some (lengthBase, lengthExtra)) (hmore : more < 2 ^ lengthExtra)
    (hdistance : distanceTable[d]? = some (distanceBase, distanceExtra))
    (hfurther : further < 2 ^ distanceExtra) (hcode : HasCode distances d)
    (hb : Spells b p (lowBits lengthExtra more ++
      (codeWord distances d ++ lowBits distanceExtra further))) (out : ByteArray) :
    readCopy (ofLengths distances) b (257 + k) p out =
      .ok (p + lengthExtra + distances.getD d 0 + distanceExtra,
        copyBack (distanceBase + further) (lengthBase + more) out) := by
  rw [spells_append, spells_append, length_lowBits, length_codeWord] at hb
  obtain ⟨hbmore, hbcode, hbfurther⟩ := hb
  have hread := read_of_spells hcode hu hbcode
  simp only [readCopy, Nat.add_sub_cancel_left, hlength, hdistance, known, bind, Except.bind, pure,
    Except.pure, bitsAt_of_spells hbmore hmore, hread, bitsAt_of_spells hbfurther hfurther]

/-- **The symbols of a block are read back**, by induction on what has been written. -/
theorem readSymbols_of_writes {tokens : List Token} {w : List Bool}
    (hw : Writes literals distances tokens w) (hl : (ofLengths literals).isUsable = true)
    (hd : (ofLengths distances).isUsable = true) (hb : Spells b p w) {fuel : Nat}
    (hfuel : tokens.length < fuel) (out : ByteArray) :
    readSymbols (ofLengths literals) (ofLengths distances) b fuel p out =
      .ok (p + w.length, tokens.foldl Token.apply out) := by
  induction hw generalizing p fuel out with
  | stop code =>
    obtain ⟨fuel, rfl⟩ : ∃ k, fuel = k + 1 := ⟨fuel - 1, by omega⟩
    rw [readSymbols, read_of_spells code hl hb, length_codeWord]
    rfl
  | @byte tokens w c code rest ih =>
    obtain ⟨fuel, rfl⟩ : ∃ k, fuel = k + 1 := ⟨fuel - 1, by omega⟩
    rw [spells_append, length_codeWord] at hb
    rw [List.length_cons] at hfuel
    have hrest := ih hb.2 (Nat.lt_of_succ_lt_succ hfuel) (out.push c)
    rw [readSymbols, read_of_spells code hl hb.1]
    simp only [bind, Except.bind, if_pos c.toNat_lt]
    rw [show c.toNat.toUInt8 = c from UInt8.ofNat_toNat, hrest, List.length_append, length_codeWord,
      ← Nat.add_assoc, List.foldl_cons, Token.apply]
  | @copy tokens w k lengthBase lengthExtra more d distanceBase distanceExtra further length more_lt
      distance further_lt lengthCode distanceCode rest ih =>
    obtain ⟨fuel, rfl⟩ : ∃ k, fuel = k + 1 := ⟨fuel - 1, by omega⟩
    rw [spells_append, spells_append, length_codeWord] at hb
    obtain ⟨hlength, hcopy, hbrest⟩ := hb
    rw [List.length_cons] at hfuel
    have hread := readCopy_of_spells hd length more_lt distance further_lt distanceCode hcopy out
    simp only [List.length_append, length_lowBits, length_codeWord, ← Nat.add_assoc] at hbrest ⊢
    have hrest := ih hbrest (Nat.lt_of_succ_lt_succ hfuel)
      (copyBack (distanceBase + further) (lengthBase + more) out)
    rw [readSymbols, read_of_spells lengthCode hl hlength]
    simp only [bind, Except.bind]
    rw [if_neg (by omega), if_neg (by omega), hread]
    exact hrest

/-- Entries of which each goes on at or before the end of the one before it leave no number out. -/
theorem exists_entry {n : Nat} {e last : Nat × Nat} {l : List (Nat × Nat)}
    (hchain : (e :: l).IsChain fun e e' => e'.1 ≤ e.1 + 2 ^ e.2) (hlast : (e :: l).getLast? = some last)
    (hle : e.1 ≤ n) (hlt : n < last.1 + 2 ^ last.2) :
    ∃ (k base extra more : Nat),
      (e :: l)[k]? = some (base, extra) ∧ more < 2 ^ extra ∧ base + more = n := by
  induction l generalizing e with
  | nil =>
    obtain rfl : e = last := Option.some.inj hlast
    exact ⟨0, e.1, e.2, n - e.1, rfl, by omega, by omega⟩
  | cons e' l ih =>
    obtain ⟨hnext, hchain'⟩ := List.isChain_cons_cons.mp hchain
    rcases Nat.lt_or_ge n (e.1 + 2 ^ e.2) with hin | hout
    · exact ⟨0, e.1, e.2, n - e.1, rfl, by omega, by omega⟩
    · obtain ⟨k, base, extra, more, hk, hmore, hn⟩ :=
        ih hchain' (by rwa [List.getLast?_cons_cons] at hlast) (Nat.le_trans hnext hout)
      exact ⟨k + 1, base, extra, more, hk, hmore, hn⟩

/-- **Every length of a copy**, from 3 to 258, has an entry. -/
theorem exists_length {n : Nat} (h : 3 ≤ n) (h' : n ≤ 258) : ∃ (k base extra more : Nat),
    lengthTable[k]? = some (base, extra) ∧ more < 2 ^ extra ∧ base + more = n := by
  have hlast : ((3, 0) :: lengthTable.toList.tail).getLast? = some (258, 0) := by decide
  obtain ⟨k, base, extra, more, hk, hmore, hn⟩ :=
    exists_entry (by decide) hlast h (Nat.lt_succ_of_le h')
  exact ⟨k, base, extra, more, by rw [← Array.getElem?_toList]; exact hk, hmore, hn⟩

/-- **Every distance of a copy**, from 1 to 32768, has an entry. -/
theorem exists_distance {n : Nat} (h : 1 ≤ n) (h' : n ≤ 32768) : ∃ (k base extra more : Nat),
    distanceTable[k]? = some (base, extra) ∧ more < 2 ^ extra ∧ base + more = n := by
  have hlast : ((1, 0) :: distanceTable.toList.tail).getLast? = some (24577, 13) := by decide
  obtain ⟨k, base, extra, more, hk, hmore, hn⟩ :=
    exists_entry (by decide) hlast h (Nat.lt_succ_of_le h')
  exact ⟨k, base, extra, more, by rw [← Array.getElem?_toList]; exact hk, hmore, hn⟩

end Symbols

/-! ## The codes of a block -/

/-- **The bits write code lengths**, from the ones in `before` to those in `after`, with the code of code
lengths `code`: each length by itself, or several equal ones at once. -/
inductive WritesLengths (code : Array Nat) : Array Nat → Array Nat → List Bool → Prop where
  | stop (lengths : Array Nat) : WritesLengths code lengths lengths []
  | length {before after : Array Nat} {w : List Bool} (l : Nat) (l_lt : l < 16)
      (has : HasCode code l) (rest : WritesLengths code (before.push l) after w) :
      WritesLengths code before after (codeWord code l ++ w)
  /-- The last length three to six times more. -/
  | again {before after : Array Nat} {w : List Bool} (n : Nat) (n_lt : n < 4)
      (nonempty : before.isEmpty = false) (has : HasCode code 16)
      (rest : WritesLengths code
        (before ++ Array.replicate (3 + n) (before.getD (before.size - 1) 0)) after w) :
      WritesLengths code before after (codeWord code 16 ++ (lowBits 2 n ++ w))
  /-- Three to ten zeros. -/
  | zeros {before after : Array Nat} {w : List Bool} (n : Nat) (n_lt : n < 8) (has : HasCode code 17)
      (rest : WritesLengths code (before ++ Array.replicate (3 + n) 0) after w) :
      WritesLengths code before after (codeWord code 17 ++ (lowBits 3 n ++ w))
  /-- Eleven to 138 zeros. -/
  | manyZeros {before after : Array Nat} {w : List Bool} (n : Nat) (n_lt : n < 128)
      (has : HasCode code 18)
      (rest : WritesLengths code (before ++ Array.replicate (11 + n) 0) after w) :
      WritesLengths code before after (codeWord code 18 ++ (lowBits 7 n ++ w))

section Lengths

variable {code : Array Nat}

theorem WritesLengths.size_le {before after : Array Nat} {w : List Bool}
    (h : WritesLengths code before after w) : before.size ≤ after.size := by
  induction h with
  | stop lengths => exact Nat.le_refl _
  | length l l_lt has rest ih =>
    rw [Array.size_push] at ih
    omega
  | _ =>
    rename_i ih
    rw [Array.size_append, Array.size_replicate] at ih
    omega

/-- A symbol that stands for several lengths is read back. -/
theorem readLengths_several {before : Array Nat} {s extra base value n total : Nat} (hs : 16 ≤ s)
    (has : HasCode code s) (hu : (ofLengths code).isUsable = true)
    (hagain : s = 16 → before.isEmpty = false)
    (hmeans : (if s = 16 then (2, 3, before.getD (before.size - 1) 0)
      else if s = 17 then (3, 3, 0) else (7, 11, 0)) = (extra, base, value))
    (hn : n < 2 ^ extra) (hsize : before.size < total) (hsymbol : Spells b p (codeWord code s))
    (hcount : Spells b (p + code.getD s 0) (lowBits extra n)) (fuel : Nat) :
    readLengths (ofLengths code) b total (fuel + 1) p before =
      readLengths (ofLengths code) b total fuel (p + code.getD s 0 + extra)
        (before ++ Array.replicate (base + n) value) := by
  have hfirst : ¬ (s = 16 ∧ before.isEmpty = true) := fun ⟨h, hempty⟩ => by
    rw [hagain h] at hempty
    cases hempty
  rw [readLengths, if_neg (by omega), if_neg (by omega), read_of_spells has hu hsymbol]
  simp only [if_neg (Nat.not_lt.mpr hs), if_neg hfirst, hmeans, bitsAt_of_spells hcount hn]

/-- **Code lengths are read back**, by induction on what has been written. -/
theorem readLengths_of_writes {before after : Array Nat} {w : List Bool}
    (hw : WritesLengths code before after w) (hu : (ofLengths code).isUsable = true)
    (hb : Spells b p w) {fuel : Nat} (hfuel : after.size < before.size + fuel) :
    readLengths (ofLengths code) b after.size fuel p before = .ok (p + w.length, after) := by
  induction hw generalizing p fuel with
  | stop lengths =>
    obtain ⟨fuel, rfl⟩ : ∃ k, fuel = k + 1 := ⟨fuel - 1, by omega⟩
    rw [readLengths, if_pos rfl]
    rfl
  | @length before after w l l_lt has rest ih =>
    have hle := rest.size_le
    rw [Array.size_push] at hle
    obtain ⟨fuel, rfl⟩ : ∃ k, fuel = k + 1 := ⟨fuel - 1, by omega⟩
    rw [spells_append, length_codeWord] at hb
    have hroom : after.size < (before.push l).size + fuel := by
      rw [Array.size_push]
      omega
    have hrest := ih hb.2 hroom
    rw [readLengths, if_neg (by omega), if_neg (by omega), read_of_spells has hu hb.1]
    simp only [if_pos l_lt]
    rw [hrest, List.length_append, length_codeWord, ← Nat.add_assoc]
  | again n n_lt nonempty has rest ih | zeros n n_lt has rest ih | manyZeros n n_lt has rest ih =>
    have hle := rest.size_le
    rw [Array.size_append, Array.size_replicate] at hle
    obtain ⟨fuel, rfl⟩ : ∃ k, fuel = k + 1 := ⟨fuel - 1, by omega⟩
    rw [spells_append, spells_append, length_codeWord, length_lowBits] at hb
    obtain ⟨hsymbol, hcount, hbrest⟩ := hb
    have hrest := @ih _ hbrest fuel (by rw [Array.size_append, Array.size_replicate]; omega)
    rw [readLengths_several (by decide) has hu (by simp [*]) rfl n_lt
      (by omega) hsymbol hcount, hrest, List.length_append, List.length_append, length_codeWord,
      length_lowBits, Nat.add_assoc, Nat.add_assoc]

/-- The lengths of the code of code lengths are read back, each by itself. -/
theorem readCodeLengthLengths_of_spells (hcode : ∀ s, code.getD s 0 < 8) {l : List Nat}
    (hb : Spells b p (l.flatMap fun s => lowBits 3 (code.getD s 0))) (lengths : Array Nat) :
    readCodeLengthLengths b l p lengths = .ok (p + 3 * l.length,
      l.foldl (fun lengths s => lengths.setIfInBounds s (code.getD s 0)) lengths) := by
  induction l generalizing p lengths with
  | nil => rfl
  | cons s l ih =>
    rw [List.flatMap_cons, spells_append, length_lowBits] at hb
    rw [readCodeLengthLengths, bitsAt_of_spells hb.1 (hcode s)]
    simp only [bind, Except.bind]
    rw [ih hb.2, List.length_cons, List.foldl_cons]
    congr 2
    omega

/-- Lengths of which the others are zero come to the whole. -/
theorem foldl_setIfInBounds {l : List Nat} {lengths : Array Nat} (hsize : lengths.size = code.size)
    (hrest : ∀ s, s ∉ l → lengths.getD s 0 = code.getD s 0) :
    l.foldl (fun lengths s => lengths.setIfInBounds s (code.getD s 0)) lengths = code := by
  simp only [Array.getD_eq_getD_getElem?] at hrest ⊢
  induction l generalizing lengths with
  | nil =>
    show lengths = code
    refine Array.ext hsize fun i hi hi' => ?_
    have := hrest i List.not_mem_nil
    rwa [Array.getElem?_eq_getElem hi, Array.getElem?_eq_getElem hi'] at this
  | cons s l ih =>
    refine ih (by rw [Array.size_setIfInBounds, hsize]) fun t ht => ?_
    rw [Array.getElem?_setIfInBounds]
    by_cases hst : s = t
    · subst hst
      rw [if_pos rfl]
      split
      · rfl
      · rename_i hout
        rw [Array.getElem?_eq_none (by omega)]
    · rw [if_neg hst]
      exact hrest t (List.not_mem_cons_of_ne_of_not_mem (Ne.symm hst) ht)

end Lengths

/-- The codes that a block brings along. -/
structure CodeTable where
  /-- The lengths of the codes of bytes and copy lengths, and of the codes of copy distances. -/
  literals : Array Nat
  distances : Array Nat
  /-- The lengths of the codes of code lengths, and how many of them are written. -/
  code : Array Nat
  written : Nat
  le_literals : 257 ≤ literals.size
  literals_le : literals.size ≤ 286
  le_distances : 1 ≤ distances.size
  distances_le : distances.size ≤ 30
  size_code : code.size = 19
  le_written : 4 ≤ written
  written_le : written ≤ 19
  code_lt : ∀ s, code.getD s 0 < 8
  /-- Those that are not written are zero. -/
  code_zero : ∀ s, s ∉ lengthOrder.take written → code.getD s 0 = 0
  complete : (ofLengths code).isComplete = true
  usable_literals : (ofLengths literals).isUsable = true
  usable_distances : (ofLengths distances).isUsable = true

/-- The bits of the codes, when `w` writes their lengths. -/
def CodeTable.bits (t : CodeTable) (w : List Bool) : List Bool :=
  lowBits 5 (t.literals.size - 257) ++ (lowBits 5 (t.distances.size - 1) ++
    (lowBits 4 (t.written - 4) ++
      ((lengthOrder.take t.written).flatMap (fun s => lowBits 3 (t.code.getD s 0)) ++ w)))

/-- **The codes of a block are read back.** -/
theorem readCodes_of_writes (t : CodeTable) {w : List Bool}
    (hw : WritesLengths t.code #[] (t.literals ++ t.distances) w) (hb : Spells b p (t.bits w)) :
    readCodes b p = .ok (p + (t.bits w).length, ofLengths t.literals, ofLengths t.distances) := by
  have hlength : (lengthOrder.take t.written).length = t.written := by
    rw [List.length_take]
    exact Nat.min_eq_left t.written_le
  have hflat : ((lengthOrder.take t.written).flatMap fun s => lowBits 3 (t.code.getD s 0)).length =
      3 * t.written := by
    rw [List.length_flatMap]
    simp only [length_lowBits, List.map_const', List.sum_replicate_nat, hlength, Nat.mul_comm]
  simp only [CodeTable.bits, spells_append, length_lowBits, hflat] at hb
  obtain ⟨hliterals, hdistances, hwritten, hcode, hlengths⟩ := hb
  have hl := bitsAt_of_spells hliterals (by have := t.literals_le; omega)
  have hd := bitsAt_of_spells hdistances (by have := t.distances_le; omega)
  have hn := bitsAt_of_spells hwritten (by have := t.written_le; omega)
  have hread := readCodeLengthLengths_of_spells t.code_lt hcode (Array.replicate 19 0)
  have hwhole : (lengthOrder.take t.written).foldl
      (fun lengths s => lengths.setIfInBounds s (t.code.getD s 0)) (Array.replicate 19 0) = t.code := by
    refine foldl_setIfInBounds (by rw [Array.size_replicate, t.size_code]) fun s hs => ?_
    rw [t.code_zero s hs, Array.getD_eq_getD_getElem?, Array.getElem?_replicate]
    split <;> rfl
  rw [hwhole, hlength] at hread
  have husable : (ofLengths t.code).isUsable = true := by
    rw [isUsable, t.complete]
    rfl
  have htotal : t.literals.size + t.distances.size = (t.literals ++ t.distances).size :=
    Array.size_append.symm
  have hroom : (t.literals ++ t.distances).size <
      (#[] : Array Nat).size + ((t.literals ++ t.distances).size + 1) := by
    rw [Array.size_empty]
    omega
  have hlengths' := readLengths_of_writes hw husable (p := p + 14 + 3 * t.written)
    (by simpa only [← Nat.add_assoc] using hlengths) hroom
  have hlsize : 257 + (t.literals.size - 257) = t.literals.size := Nat.add_sub_cancel' t.le_literals
  have hdsize : 1 + (t.distances.size - 1) = t.distances.size := Nat.add_sub_cancel' t.le_distances
  have hnsize : 4 + (t.written - 4) = t.written := Nat.add_sub_cancel' t.le_written
  have hlimits : ¬ (286 < t.literals.size ∨ 30 < t.distances.size) := by
    have := t.literals_le
    have := t.distances_le
    omega
  simp only [readCodes, bind, Except.bind, hl, hd, hn, hlsize, hdsize, hnsize, if_neg hlimits, hread,
    t.complete, Bool.not_true, Bool.false_eq_true, if_false, htotal, hlengths']
  have hfirst : (t.literals ++ t.distances).extract 0 t.literals.size = t.literals := by simp
  have hsecond : (t.literals ++ t.distances).extract t.literals.size (t.literals ++ t.distances).size =
      t.distances := by simp
  have hend : p + (t.bits w).length = p + 14 + 3 * t.written + w.length := by
    simp only [CodeTable.bits, List.length_append, length_lowBits, hflat]
    omega
  rw [hfirst, hsecond, t.usable_literals, t.usable_distances, hend]
  rfl

/-! ## The fixed codes -/

/-- The lengths of the fixed codes of bytes and copy lengths. -/
def fixedLiteralLengths : Array Nat :=
  Array.replicate 144 8 ++ Array.replicate 112 9 ++ Array.replicate 24 7 ++ Array.replicate 8 8

/-- The lengths of the fixed codes of copy distances. -/
def fixedDistanceLengths : Array Nat := Array.replicate 32 5

theorem usable_fixed : (ofLengths fixedLiteralLengths).isUsable = true ∧
    (ofLengths fixedDistanceLengths).isUsable = true := by
  -- how often a length occurs is told from the runs, not by looking at every symbol
  have hliterals : ∀ l, fixedLiteralLengths.count l =
      (if 8 = l then 144 else 0) + (if 9 = l then 112 else 0) + (if 7 = l then 24 else 0) +
        (if 8 = l then 8 else 0) := by
    intro l
    simp only [fixedLiteralLengths, Array.count_append, Array.count_replicate, beq_iff_eq]
  have hdistances : ∀ l, fixedDistanceLengths.count l = if 5 = l then 32 else 0 := by
    intro l
    simp only [fixedDistanceLengths, Array.count_replicate, beq_iff_eq]
  simp only [isUsable, isComplete, used, ofLengths, hliterals, hdistances]
  constructor
  · rw [Bool.or_eq_true]
    exact .inl (by decide +kernel)
  · rw [Bool.or_eq_true]
    exact .inl (by decide +kernel)

theorem hasCode_of_mem {lengths : Array Nat} (h : ∀ l ∈ lengths, 0 < l ∧ l ≤ 15) {s : Nat}
    (hs : s < lengths.size) : HasCode lengths s := by
  obtain ⟨hpos, hle⟩ := h lengths[s] (Array.getElem_mem hs)
  constructor <;> rwa [Array.getD_eq_getD_getElem?, Array.getElem?_eq_getElem hs]

/-- Every byte, every length and the end of a block has a fixed code, and every distance. -/
theorem hasCode_fixed : (∀ s < 288, HasCode fixedLiteralLengths s) ∧
    ∀ s < 32, HasCode fixedDistanceLengths s := by
  constructor
  · intro s hs
    refine hasCode_of_mem (fun l hl => ?_) (by simpa [fixedLiteralLengths] using hs)
    simp only [fixedLiteralLengths, Array.mem_append, Array.mem_replicate] at hl
    omega
  · intro s hs
    refine hasCode_of_mem (fun l hl => ?_) (by simpa [fixedDistanceLengths] using hs)
    rw [fixedDistanceLengths, Array.mem_replicate] at hl
    omega

/-- The token is a byte, or a copy whose length and distance the format has. -/
def Token.IsInFormat : Token → Prop
  | .byte _ => True
  | .copy length distance => (3 ≤ length ∧ length ≤ 258) ∧ 1 ≤ distance ∧ distance ≤ 32768

/-- **Whatever the format has can be written** with the fixed codes. -/
theorem exists_writes {tokens : List Token} (h : ∀ t ∈ tokens, t.IsInFormat) :
    ∃ w, Writes fixedLiteralLengths fixedDistanceLengths tokens w := by
  obtain ⟨hliterals, hdistances⟩ := hasCode_fixed
  induction tokens with
  | nil => exact ⟨_, .stop (hliterals 256 (by decide))⟩
  | cons t tokens ih =>
    obtain ⟨w, hw⟩ := ih fun t ht => h t (List.mem_cons_of_mem _ ht)
    cases t with
    | byte c => exact ⟨_, .byte c (hliterals _ (Nat.lt_trans c.toNat_lt (by decide))) hw⟩
    | copy length distance =>
      obtain ⟨⟨hle₁, hle₂⟩, hle₃, hle₄⟩ := h _ List.mem_cons_self
      obtain ⟨k, base, extra, more, hk, hmore, rfl⟩ := exists_length hle₁ hle₂
      obtain ⟨d, base', extra', further, hd, hfurther, rfl⟩ := exists_distance hle₃ hle₄
      have hk' : k < 29 := (Array.getElem?_eq_some_iff.mp hk).1
      have hd' : d < 30 := (Array.getElem?_eq_some_iff.mp hd).1
      exact ⟨_, .copy hk hmore hd hfurther (hliterals _ (by omega)) (hdistances _ (by omega)) hw⟩

/-! ## Blocks -/

/-- What a block stands for. -/
inductive Block where
  | stored (bytes : List UInt8)
  | symbols (tokens : List Token)

/-- What has come out after one block more. -/
def Block.apply (out : ByteArray) : Block → ByteArray
  | .stored bytes => out ++ ofList bytes
  | .symbols tokens => tokens.foldl Token.apply out

/-- **The data hold a block** of a kind, from the bit position `p` behind its header to the position
behind its end. -/
inductive Holds (b : ByteArray) (p : Nat) : Nat → Block → Nat → Prop where
  /-- Bytes as they are, from the next byte on. -/
  | stored {bytes rest : List UInt8} (le : bytes.length ≤ storedLimit)
      (drop_eq : (toList b).drop ((p + 7) / 8) = frame bytes ++ rest) :
      Holds b p 0 (.stored bytes) (8 * ((p + 7) / 8 + (frame bytes).length))
  /-- Symbols with the fixed codes. -/
  | fixed {tokens : List Token} {w : List Bool}
      (writes : Writes fixedLiteralLengths fixedDistanceLengths tokens w) (spells : Spells b p w) :
      Holds b p 1 (.symbols tokens) (p + w.length)
  /-- Symbols with codes of the block's own. -/
  | dynamic {tokens : List Token} {w₀ w : List Bool} (t : CodeTable)
      (lengths : WritesLengths t.code #[] (t.literals ++ t.distances) w₀)
      (writes : Writes t.literals t.distances tokens w) (spells : Spells b p (t.bits w₀ ++ w)) :
      Holds b p 2 (.symbols tokens) (p + (t.bits w₀ ++ w).length)

section Blocks

variable {p' kind : Nat} {block : Block}

theorem Holds.kind_lt (h : Holds b p kind block p') : kind < 4 := by
  cases h <;> decide

theorem length_lt_of_writes {literals distances : Array Nat} {tokens : List Token} {w : List Bool}
    (hw : Writes literals distances tokens w) : tokens.length < w.length := by
  induction hw with
  | stop code =>
    rw [length_codeWord]
    exact code.pos
  | byte c code rest ih =>
    have := code.pos
    rw [List.length_append, List.length_cons, length_codeWord]
    omega
  | copy _ _ _ _ code _ rest ih =>
    have := code.pos
    rw [List.length_append, List.length_append, List.length_cons, length_codeWord]
    omega

/-- Within the data there is fuel enough for the symbols of a block. -/
theorem length_lt_of_spells {literals distances : Array Nat} {tokens : List Token} {w : List Bool}
    (hw : Writes literals distances tokens w) (hb : Spells b p w) :
    tokens.length < 8 * b.size + 1 := by
  have hlt := length_lt_of_writes hw
  cases w with
  | nil => exact absurd hlt (Nat.not_lt_zero _)
  | cons x w =>
    have hle := hb.length_le
    omega

/-- **A block is read back.** -/
theorem readBlock_of_holds (h : Holds b p kind block p') (out : ByteArray) :
    readBlock b kind p out = .ok (p', block.apply out) := by
  cases h with
  | @stored bytes rest le drop_eq =>
    have hread := readStored_frame drop_eq le out
    simp only [readBlock, hread, bind, Except.bind]
    rfl
  | @fixed tokens w writes spells =>
    exact readSymbols_of_writes writes usable_fixed.1 usable_fixed.2 spells
      (length_lt_of_spells writes spells) out
  | @dynamic tokens w₀ w t lengths writes spells =>
    rw [spells_append] at spells
    have hcodes := readCodes_of_writes t lengths spells.1
    have hread := readSymbols_of_writes writes t.usable_literals t.usable_distances spells.2
      (length_lt_of_spells writes spells.2) out
    simp only [readBlock, hcodes, bind, Except.bind]
    rw [hread, List.length_append, Nat.add_assoc]
    rfl

/-! ## All blocks -/

/-- **The data hold blocks** from the bit position `p` on; the header of the last one says so. -/
inductive HoldsAll (b : ByteArray) : Nat → List Block → Nat → Prop where
  | last {p p' kind : Nat} {block : Block} (header : Spells b p (lowBits 3 (2 * kind + 1)))
      (holds : Holds b (p + 3) kind block p') : HoldsAll b p [block] p'
  | more {p p' p'' kind : Nat} {block : Block} {blocks : List Block}
      (header : Spells b p (lowBits 3 (2 * kind))) (holds : Holds b (p + 3) kind block p')
      (rest : HoldsAll b p' blocks p'') : HoldsAll b p (block :: blocks) p''

/-- What all blocks stand for. -/
def content (blocks : List Block) : ByteArray := blocks.foldl Block.apply ByteArray.empty

theorem HoldsAll.length_le {blocks : List Block} (h : HoldsAll b p blocks p') :
    p + 3 * blocks.length ≤ 8 * b.size := by
  induction h with
  | last header holds => exact header.length_le
  | more header holds rest ih =>
    have hle := (expands_readBlock (readBlock_of_holds holds ByteArray.empty)).le
    rw [List.length_cons]
    omega

/-- **Blocks are read back**, one after another. -/
theorem readBlocks_of_holdsAll {blocks : List Block} (h : HoldsAll b p blocks p') {fuel : Nat}
    (hfuel : blocks.length < fuel) (out : ByteArray) :
    readBlocks b fuel p out = .ok ((p' + 7) / 8, blocks.foldl Block.apply out) := by
  induction h generalizing fuel out with
  | @last p p' kind block header holds =>
    obtain ⟨fuel, rfl⟩ : ∃ k, fuel = k + 1 := ⟨fuel - 1, by omega⟩
    have hkind := holds.kind_lt
    have hheader := bitsAt_of_spells header (by omega)
    have hhalf : (2 * kind + 1) / 2 = kind := by omega
    have hodd : (2 * kind + 1) % 2 = 1 := by omega
    simp only [readBlocks, hheader, bind, Except.bind, hhalf, hodd, readBlock_of_holds holds out]
    rfl
  | @more p p' p'' kind block blocks header holds rest ih =>
    obtain ⟨fuel, rfl⟩ : ∃ k, fuel = k + 1 := ⟨fuel - 1, by omega⟩
    have hkind := holds.kind_lt
    have hheader := bitsAt_of_spells header (by omega)
    have hhalf : 2 * kind / 2 = kind := by omega
    have heven : 2 * kind % 2 = 0 := by omega
    rw [List.length_cons] at hfuel
    simp only [readBlocks, hheader, bind, Except.bind, hhalf, heven, readBlock_of_holds holds out]
    exact ih (Nat.lt_of_succ_lt_succ hfuel) (block.apply out)

/-- **Compressed data are read back**, whatever blocks they have been cut into and however these have
been written. -/
theorem inflate_of_holdsAll {i : Nat} {blocks : List Block} (h : HoldsAll b (8 * i) blocks p) :
    inflate b i = .ok ((p + 7) / 8, content blocks) := by
  have hle := h.length_le
  exact readBlocks_of_holdsAll h (by omega) ByteArray.empty

end Blocks

end SessionMux.Gzip
