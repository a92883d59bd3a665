import SessionMux.Gzip.Member
import SessionMux.Proofs.Octets

/-!
# Gzip members, there and back

A member that is written here is a fixed header, stored blocks, and the checksum and the length of
the bytes. Read back it stands for those bytes: the blocks start at byte bounds, so the bits of
their lengths are the bytes of the lengths.

* `blocks` — stored blocks by recursion on the bytes.
* `bitsAt_bytes` — bits that start at a byte bound spell the bytes there.
* `readStored_frame` — one block is read back.
* **`readBlocks_blocks`** — so is a run of blocks, by induction on the blocks.
* `decode_of_inflate` — the checksum and the length behind the data.
* **`decode_encode`** — and the member as a whole.
-/

namespace SessionMux.Gzip

open Octets

/-- A stored block behind its first byte: its length, the complement, the bytes. -/
def frame (block : List UInt8) : List UInt8 :=
  littleEndianBytes 2 block.length ++ littleEndianBytes 2 (65535 - block.length) ++ block

/-- Stored blocks with the bytes; the last one says so. -/
def blocks (l : List UInt8) : List UInt8 :=
  if storedLimit < l.length then 0 :: frame (l.take storedLimit) ++ blocks (l.drop storedLimit)
  else 1 :: frame l
termination_by l.length
decreasing_by rw [List.length_drop]; simp only [storedLimit] at *; omega

theorem blocks_more {l : List UInt8} (h : storedLimit < l.length) :
    blocks l = 0 :: frame (l.take storedLimit) ++ blocks (l.drop storedLimit) := by
  rw [blocks, if_pos h]

theorem blocks_last {l : List UInt8} (h : ¬ storedLimit < l.length) : blocks l = 1 :: frame l := by
  rw [blocks, if_neg h]

theorem length_frame (block : List UInt8) : (frame block).length = 4 + block.length := by
  rw [frame, List.length_append, List.length_append, length_littleEndianBytes,
    length_littleEndianBytes]

theorem length_le_blocks (l : List UInt8) : l.length ≤ (blocks l).length := by
  fun_induction blocks l with
  | case1 l hmore ih =>
    rw [List.length_drop] at ih
    rw [List.length_append, List.length_cons, length_frame, List.length_take]
    omega
  | case2 l hlast =>
    rw [List.length_cons, length_frame]
    omega

/-! ## Writing -/

/-- **The writer appends the blocks.** -/
theorem toList_storeFrom (b : ByteArray) (i : Nat) (out : ByteArray) (h : i ≤ b.size) :
    toList (storeFrom b i out) = toList out ++ blocks ((toList b).drop i) := by
  fun_induction storeFrom b i out with
  | case1 i out length block lengths hmore ih =>
    have hlen : length = storedLimit := by
      show min storedLimit (b.size - i) = storedLimit
      omega
    have htake : ((toList b).drop i).take storedLimit = toList block := by
      show _ = toList (b.extract i (i + length))
      rw [toList_extract, hlen]
    have hblock : (toList block).length = length := by
      rw [← htake, hlen, List.length_take, List.length_drop, length_toList]
      omega
    have hlong : storedLimit < ((toList b).drop i).length := by
      rw [List.length_drop, length_toList]
      omega
    rw [ih (by omega), blocks_more hlong, htake, List.drop_drop, frame, hblock, toList_append,
      toList_append, push_eq, toList_append, toList_ofList, toList_ofList]
    simp only [List.append_assoc, List.cons_append, List.nil_append]
  | case2 i out length block lengths hlast =>
    have hlen : length = b.size - i := by
      show min storedLimit (b.size - i) = b.size - i
      omega
    have hblock : toList block = (toList b).drop i := by
      show toList (b.extract i (i + length)) = _
      rw [toList_extract, hlen]
      exact List.take_of_length_le (Nat.le_of_eq List.length_drop)
    have hshort : ¬ storedLimit < ((toList b).drop i).length := by
      rw [List.length_drop, length_toList]
      omega
    have hcount : ((toList b).drop i).length = length := by
      rw [List.length_drop, length_toList, hlen]
    rw [blocks_last hshort, frame, hcount, toList_append, toList_append, push_eq, toList_append,
      toList_ofList, toList_ofList, hblock]
    simp only [List.append_assoc, List.cons_append, List.nil_append]

/-! ## Bits at a byte bound -/

section Reading

variable {b : ByteArray} {i : Nat} {c : UInt8} {w block rest : List UInt8}

/-- The lowest bits of what is left of a byte. -/
theorem bitsAt_byte (h : (toList b).drop i = c :: rest) (k n : Nat) (hn : k + n ≤ 8) :
    bitsAt b (8 * i + k) n = .ok ((c.toNat >>> k) % 2 ^ n) := by
  induction n generalizing k with
  | zero => rw [bitsAt, Nat.pow_zero, Nat.mod_one]
  | succ n ih =>
    obtain ⟨hi, hc, -⟩ := getElem_of_drop h
    have hplace : (8 * i + k) / 8 = i := by omega
    have hbit : bitAt b (8 * i + k) = .ok ((c.toNat >>> k) % 2) := by
      have hmod : (8 * i + k) % 8 = k := by omega
      simp only [bitAt, hplace, hmod, dif_pos hi, hc]
    have hnext : bitsAt b (8 * i + k + 1) n = .ok ((c.toNat >>> (k + 1)) % 2 ^ n) :=
      ih (k + 1) (by omega)
    rw [bitsAt, hbit, hnext]
    show Except.ok _ = Except.ok _
    rw [Nat.pow_succ, Nat.mul_comm (2 ^ n), Nat.mod_mul, Nat.shiftRight_succ]

/-- Bits behind bits are the higher ones. -/
theorem bitsAt_add {p m n x y : Nat} (hx : bitsAt b p m = .ok x) (hy : bitsAt b (p + m) n = .ok y) :
    bitsAt b p (m + n) = .ok (x + 2 ^ m * y) := by
  induction m generalizing p x with
  | zero =>
    cases hx
    rw [Nat.zero_add, Nat.pow_zero, Nat.one_mul, Nat.zero_add]
    exact hy
  | succ m ih =>
    rw [bitsAt] at hx
    cases hlow : bitAt b p with
    | error f => rw [hlow] at hx; cases hx
    | ok low =>
      cases hhigh : bitsAt b (p + 1) m with
      | error f => rw [hlow, hhigh] at hx; cases hx
      | ok high =>
        rw [hlow, hhigh] at hx
        cases hx
        have := ih hhigh (by rw [← hy]; congr 1; omega)
        rw [Nat.succ_add, bitsAt, hlow, this]
        show Except.ok _ = Except.ok _
        rw [Nat.pow_succ, Nat.mul_comm (2 ^ m) 2, Nat.mul_assoc, Nat.mul_add, Nat.add_assoc]

/-- **The bits of whole bytes spell the bytes.** -/
theorem bitsAt_bytes (h : (toList b).drop i = w ++ rest) :
    bitsAt b (8 * i) (8 * w.length) = .ok (littleEndian w) := by
  induction w generalizing i with
  | nil => rfl
  | cons c w ih =>
    obtain ⟨-, -, hrest⟩ := getElem_of_drop h
    have hc := bitsAt_byte h 0 8 (by omega)
    have hw : bitsAt b (8 * i + 8) (8 * w.length) = .ok (littleEndian w) := ih hrest
    have hlow : c.toNat % 2 ^ 8 = c.toNat := Nat.mod_eq_of_lt c.toNat_lt
    rw [Nat.shiftRight_zero, hlow, Nat.add_zero] at hc
    have hbits := bitsAt_add hc hw
    rw [List.length_cons, Nat.mul_succ, Nat.add_comm, hbits]
    rfl

theorem bitsAt_length {n : Nat} (h : (toList b).drop i = littleEndianBytes 2 n ++ rest)
    (hn : n < 65536) : bitsAt b (8 * i) 16 = .ok n := by
  have hbits := bitsAt_bytes h
  have hn' : n < 256 ^ 2 := hn
  rwa [length_littleEndianBytes, littleEndian_littleEndianBytes, Nat.mod_eq_of_lt hn'] at hbits

/-! ## Reading blocks -/

/-- **A stored block is read back.** -/
theorem readStored_frame (h : (toList b).drop i = frame block ++ rest)
    (hblock : block.length ≤ storedLimit) (out : ByteArray) :
    readStored b i out = .ok (i + (frame block).length, out ++ ofList block) := by
  rw [storedLimit] at hblock
  rw [frame, List.append_assoc, List.append_assoc] at h
  have hlength := bitsAt_length h (by omega)
  have h₂ := drop_of_drop h
  rw [length_littleEndianBytes] at h₂
  have hcomplement := bitsAt_length h₂ (by omega)
  have h₄ := drop_of_drop h₂
  rw [length_littleEndianBytes] at h₄
  have hbytes := extract_of_drop h₄
  have hsize : i + 2 + 2 + block.length ≤ b.size := by
    have hlen := congrArg List.length h
    rw [List.length_drop, length_toList] at hlen
    simp only [List.length_append, length_littleEndianBytes] at hlen
    omega
  have hplace : 8 * (i + 2) = 8 * i + 16 := by omega
  rw [hplace] at hcomplement
  rw [readStored, hlength]
  show (bitsAt b (8 * i + 16) 16 >>= _) = _
  rw [hcomplement]
  show (if block.length + (65535 - block.length) ≠ 65535 then _ else _) = _
  rw [if_neg (by omega), if_neg (by omega), length_frame, ← Nat.add_assoc]
  exact congrArg (fun x => Except.ok (i + 4 + block.length, out ++ x)) hbytes

/-- One block of a run of blocks: the first byte tells whether it is the last one. -/
theorem readBlocks_frame (h : (toList b).drop i = c :: frame block ++ rest) (hc : c.toNat < 2)
    (hblock : block.length ≤ storedLimit) (fuel : Nat) (out : ByteArray) :
    readBlocks b (fuel + 1) (8 * i) out =
      if c.toNat = 1 then .ok (i + 1 + (frame block).length, out ++ ofList block)
      else readBlocks b fuel (8 * (i + 1 + (frame block).length)) (out ++ ofList block) := by
  rw [List.cons_append] at h
  obtain ⟨-, -, hframe⟩ := getElem_of_drop h
  have hheader := bitsAt_byte h 0 3 (by omega)
  have hlow : c.toNat % 2 ^ 3 = c.toNat := Nat.mod_eq_of_lt (Nat.lt_of_lt_of_le hc (by decide))
  rw [Nat.shiftRight_zero, hlow, Nat.add_zero] at hheader
  have hstored := readStored_frame hframe hblock out
  have hplace : (8 * i + 3 + 7) / 8 = i + 1 := by omega
  have hblock' : readBlock b 0 (8 * i + 3) out
      = .ok (8 * (i + 1 + (frame block).length), out ++ ofList block) := by
    simp only [readBlock, hplace, hstored, bind, Except.bind, pure, Except.pure]
  have hkind : c.toNat / 2 = 0 := by omega
  have hmod : c.toNat % 2 = c.toNat := Nat.mod_eq_of_lt hc
  have hend : (8 * (i + 1 + (frame block).length) + 7) / 8 = i + 1 + (frame block).length := by
    omega
  rw [readBlocks, hheader]
  simp only [bind, Except.bind, hkind, hblock', hmod, hend]

/-- **A run of stored blocks is read back.** -/
theorem readBlocks_blocks (l : List UInt8) (h : (toList b).drop i = blocks l ++ rest) (fuel : Nat)
    (hfuel : l.length < fuel) (out : ByteArray) :
    readBlocks b fuel (8 * i) out = .ok (i + (blocks l).length, out ++ ofList l) := by
  induction hn : l.length using Nat.strongRecOn generalizing l i fuel out with
  | ind n ih =>
    subst hn
    obtain ⟨fuel, rfl⟩ : ∃ k, fuel = k + 1 := ⟨fuel - 1, by omega⟩
    by_cases hl : storedLimit < l.length
    · have hshort : (l.take storedLimit).length ≤ storedLimit := by
        rw [List.length_take]
        omega
      rw [blocks_more hl, List.append_assoc] at h
      have hfirst := readBlocks_frame h (by decide) hshort fuel out
      have hrest := drop_of_drop h
      rw [List.length_cons, Nat.add_comm _ 1, ← Nat.add_assoc] at hrest
      have hdrop : (l.drop storedLimit).length < l.length := by
        rw [List.length_drop, storedLimit]
        rw [storedLimit] at hl
        omega
      have hmore := ih _ hdrop (l.drop storedLimit) hrest fuel (by omega)
        (out ++ ofList (l.take storedLimit)) rfl
      rw [hfirst, if_neg (by decide), hmore, append_ofList, List.take_append_drop, blocks_more hl,
        List.length_append, List.length_cons]
      congr 2
      omega
    · rw [blocks_last hl] at h ⊢
      rw [readBlocks_frame h (by decide) (by omega), if_pos (by decide), List.length_cons]
      congr 2
      omega

/-! ## Reading the member -/

theorem number?_of_drop {n : Nat} (h : (toList b).drop i = w ++ rest) (hw : w.length = n)
    (hn : 0 < n) : number? b i n = some (littleEndian w) := by
  have hsize := add_length_le_of_drop h (by intro he; rw [he] at hw; simp at hw; omega)
  rw [number?, ← hw, if_pos hsize, extract_of_drop h, toList_ofList]

theorem readHeader_plain (h : toList b = toList plainHeader ++ rest) : readHeader b = .ok 10 := by
  have hmagic : number? b 0 2 = some 0x8b1f :=
    number?_of_drop (w := [0x1f, 0x8b]) (by rw [h]; rfl) rfl (by decide)
  have hmethod : number? b 2 1 = some 8 :=
    number?_of_drop (w := [8]) (by rw [h]; rfl) rfl (by decide)
  have hflags : number? b 3 1 = some 0 :=
    number?_of_drop (w := [0]) (by rw [h]; rfl) rfl (by decide)
  have hrest : number? b 4 6 = some 0xff0000000000 :=
    number?_of_drop (w := [0, 0, 0, 0, 0, 0xff]) (by rw [h]; rfl) rfl (by decide)
  rw [readHeader, hmagic, hmethod, hflags, hrest]
  rfl

/-- A member is what its data stand for, if checksum and length behind them say so. -/
theorem decode_of_inflate {start : Nat} {out : ByteArray} (hstart : readHeader b = .ok start)
    (hinflate : inflate b start = .ok (i, out))
    (htrailer : (toList b).drop i =
      littleEndianBytes 4 (crc32 out).toNat ++ (littleEndianBytes 4 out.size ++ rest)) :
    decode b = .ok out := by
  have hsum : number? b i 4 = some (crc32 out).toNat := by
    rw [number?_of_drop htrailer (length_littleEndianBytes _ _) (by decide),
      littleEndian_littleEndianBytes,
      Nat.mod_eq_of_lt (Nat.lt_of_lt_of_le (crc32 out).toNat_lt (by decide))]
  have hlength : number? b (i + 4) 4 = some (out.size % Nat.pow 2 32) := by
    have hlast := drop_of_drop htrailer
    have hpow : 256 ^ 4 = Nat.pow 2 32 := rfl
    rw [length_littleEndianBytes] at hlast
    rw [number?_of_drop hlast (length_littleEndianBytes _ _) (by decide),
      littleEndian_littleEndianBytes, hpow]
  rw [decode, hstart]
  simp only [bind, Except.bind, hinflate, hsum, hlength, need, ne_eq, not_true_eq_false, or_self,
    if_false]

end Reading

/-- **A member that is written stands for its bytes.** -/
theorem decode_encode (b : ByteArray) : decode (encode b) = .ok b := by
  have hlist : toList (encode b) = toList plainHeader ++ (blocks (toList b) ++
      (littleEndianBytes 4 (crc32 b).toNat ++ (littleEndianBytes 4 b.size ++ []))) := by
    rw [encode, toList_append, toList_storeFrom b 0 plainHeader (Nat.zero_le _), toList_ofList,
      List.drop_zero, List.append_assoc, List.append_nil]
  have hstart : (toList (encode b)).drop 10 = blocks (toList b) ++
      (littleEndianBytes 4 (crc32 b).toNat ++ (littleEndianBytes 4 b.size ++ [])) := by
    rw [hlist]
    rfl
  have hfuel : (toList b).length < 8 * (encode b).size + 1 := by
    have hle := length_le_blocks (toList b)
    rw [← length_toList (encode b), hlist, List.length_append, List.length_append]
    omega
  have hinflate : inflate (encode b) 10 = .ok (10 + (blocks (toList b)).length, b) := by
    rw [inflate]
    have := readBlocks_blocks (toList b) hstart _ hfuel ByteArray.empty
    rwa [ofList_toList, ByteArray.empty_append] at this
  exact decode_of_inflate (readHeader_plain hlist) hinflate (drop_of_drop hstart)

end SessionMux.Gzip
