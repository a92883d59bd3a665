import SessionMux.Proofs.Gzip.Blocks

/-!
# Members of any kind

A member need not look as the ones that are written here: its header may have an extra field, a name, a
comment and a checksum, and its data may be cut into blocks of all kinds. Whatever it is made of, it
stands for the bytes that its blocks stand for.

* `afterText_eq`, `afterText_unfinished` — a name or a comment, within the limit and above it.
* `Header`, **`readHeader_of_bytes`** — a header with the fields that it announces.
* **`decode_member`** — a header, blocks, and the checksum and length of what they stand for.
-/

namespace SessionMux.Gzip

open Octets

variable {b : ByteArray} {i : Nat} {rest : List UInt8}

/-! ## The fields of a header -/

/-- **A name or a comment** is skipped with the zero that ends it, unless it is above the limit. -/
theorem afterText_eq {l : List UInt8} (h : (toList b).drop i = l ++ 0 :: rest) (hl : 0 ∉ l) :
    afterText b i = if textLimit < l.length then .error .fieldTooLong else .ok (i + l.length + 1) := by
  have hfind : indexOf? 0 b i b.size = some (i + l.length) := by
    rw [indexOf?_eq, ← length_toList, List.take_length, h, idxOf?_append_cons hl]
    rfl
  rw [afterText, hfind]
  simp only [Nat.add_sub_cancel_left]

/-- A name or a comment that does not end is cut off, unless it is above the limit before. -/
theorem afterText_unfinished (h : 0 ∉ (toList b).drop i) :
    afterText b i =
      if textLimit < b.size - i then .error .fieldTooLong else .error .unexpectedEnd := by
  have hfind : indexOf? 0 b i b.size = none := by
    rw [indexOf?_eq, ← length_toList, List.take_length, List.idxOf?_eq_none_iff.mpr h]
    rfl
  rw [afterText, hfind]

/-- The bytes of a name or a comment, if there is one. -/
def textBytes : Option (List UInt8) → List UInt8
  | some l => l ++ [0]
  | none => []

/-- The bytes of an extra field, if there is one. -/
def extraBytes : Option (List UInt8) → List UInt8
  | some l => littleEndianBytes 2 l.length ++ l
  | none => []

theorem skip_textBytes {o : Option (List UInt8)} (h : (toList b).drop i = textBytes o ++ rest)
    (ho : ∀ l ∈ o, 0 ∉ l ∧ l.length ≤ textLimit) :
    skipIf o.isSome (afterText b) i = .ok (i + (textBytes o).length) := by
  cases o with
  | none => rfl
  | some l =>
    obtain ⟨hl, hle⟩ := ho l rfl
    rw [textBytes, List.append_assoc] at h
    rw [skipIf, Option.isSome_some, if_pos rfl, afterText_eq h hl, if_neg (Nat.not_lt.mpr hle), textBytes,
      List.length_append]
    rfl

theorem skip_extraBytes {o : Option (List UInt8)} (h : (toList b).drop i = extraBytes o ++ rest)
    (ho : ∀ l ∈ o, l.length < 65536) :
    skipIf o.isSome (afterExtra b) i = .ok (i + (extraBytes o).length) := by
  cases o with
  | none => rfl
  | some l =>
    have hsize := add_length_le_of_drop h (by simp [extraBytes, littleEndianBytes])
    rw [extraBytes, List.append_assoc] at h
    have hl : l.length < 256 ^ 2 := ho l rfl
    have hnumber : number? b i 2 = some l.length := by
      rw [number?_of_drop h (length_littleEndianBytes _ _) (by decide),
        littleEndian_littleEndianBytes, Nat.mod_eq_of_lt hl]
    rw [extraBytes, List.length_append, length_littleEndianBytes] at hsize ⊢
    rw [skipIf, Option.isSome_some, if_pos rfl, afterExtra, hnumber, ← Nat.add_assoc]
    exact if_neg (by omega)

/-- The fields of a header. -/
structure Header where
  /-- The time, a hint of how hard the compressor has tried, and the system. -/
  stamps : List UInt8
  isText : Bool
  isChecked : Bool
  extra : Option (List UInt8)
  name : Option (List UInt8)
  comment : Option (List UInt8)
  length_stamps : stamps.length = 6
  extra_lt : ∀ l ∈ extra, l.length < 65536
  name_le : ∀ l ∈ name, 0 ∉ l ∧ l.length ≤ textLimit
  comment_le : ∀ l ∈ comment, 0 ∉ l ∧ l.length ≤ textLimit

namespace Header

variable (h : Header)

/-- The flags announce what follows. -/
def flags : Nat :=
  h.isText.toNat + 2 * h.isChecked.toNat + 4 * h.extra.isSome.toNat + 8 * h.name.isSome.toNat +
    16 * h.comment.isSome.toNat

/-- The bytes that the checksum of the header is about. -/
def front : List UInt8 :=
  [0x1f, 0x8b] ++ ([8] ++ ([h.flags.toUInt8] ++ (h.stamps ++
    (extraBytes h.extra ++ (textBytes h.name ++ textBytes h.comment)))))

/-- The checksum, if there is one. -/
def checksum : List UInt8 :=
  if h.isChecked then littleEndianBytes 2 (crc32 (ofList h.front)).toNat else []

/-- The bytes of the header. -/
def bytes : List UInt8 := h.front ++ h.checksum

theorem flags_lt : h.flags < 32 := by
  have hle := fun x : Bool => x.toNat_le
  have h₁ := hle h.isText
  have h₂ := hle h.isChecked
  have h₃ := hle h.extra.isSome
  have h₄ := hle h.name.isSome
  have h₅ := hle h.comment.isSome
  rw [flags]
  omega

theorem testBit_flags : h.flags.testBit 1 = h.isChecked ∧ h.flags.testBit 2 = h.extra.isSome ∧
    h.flags.testBit 3 = h.name.isSome ∧ h.flags.testBit 4 = h.comment.isSome := by
  rw [flags]
  generalize h.isText = x₀, h.isChecked = x₁, h.extra.isSome = x₂, h.name.isSome = x₃,
    h.comment.isSome = x₄
  revert x₀ x₁ x₂ x₃ x₄
  decide

/-- The checksum is that of what stands before it. -/
theorem skip_checksum (hb : toList b = h.front ++ (h.checksum ++ rest)) :
    skipIf h.isChecked (afterSum b) h.front.length = .ok (h.front ++ h.checksum).length := by
  have hextract : b.extract 0 h.front.length = ofList h.front := by
    have := extract_of_drop (i := 0) hb
    rwa [Nat.zero_add] at this
  have hsum : (toList b).drop h.front.length = h.checksum ++ rest := by
    rw [hb, List.drop_left]
  rw [List.length_append, skipIf]
  rw [checksum] at hsum ⊢
  split
  · rename_i hchecked
    rw [if_pos hchecked] at hsum
    have hpow : 256 ^ 2 = 65536 := rfl
    rw [afterSum, number?_of_drop hsum (length_littleEndianBytes _ _) (by decide), hextract,
      littleEndian_littleEndianBytes, hpow, length_littleEndianBytes]
    exact if_neg (not_not_intro rfl)
  · rfl

theorem length_front : h.front.length = 10 + (extraBytes h.extra).length + (textBytes h.name).length +
    (textBytes h.comment).length := by
  simp only [front, List.length_append, h.length_stamps, List.length_cons, List.length_nil]
  omega

/-- **A header is read up to its end.** -/
theorem readHeader_of_bytes (hb : toList b = h.bytes ++ rest) : readHeader b = .ok h.bytes.length := by
  rw [bytes, List.append_assoc] at hb
  have hchecksum := h.skip_checksum hb
  have hb₀ : (toList b).drop 0 = _ := hb
  simp only [front, List.append_assoc] at hb₀
  have hb₂ := drop_of_drop hb₀
  have hb₃ := drop_of_drop hb₂
  have hb₄ := drop_of_drop hb₃
  have hb₁₀ : (toList b).drop (4 + h.stamps.length) = _ := drop_of_drop hb₄
  rw [h.length_stamps] at hb₁₀
  have hmagic : number? b 0 2 = some 0x8b1f := number?_of_drop hb₀ rfl (by decide)
  have hmethod : number? b 2 1 = some 8 := number?_of_drop hb₂ rfl (by decide)
  have hflags : number? b 3 1 = some h.flags := by
    have hbyte : littleEndian [h.flags.toUInt8] = h.flags :=
      UInt8.toNat_ofNat_of_lt' (Nat.lt_trans h.flags_lt (by decide))
    rw [← hbyte]
    exact number?_of_drop hb₃ rfl (by decide)
  have hstamps : number? b 4 6 = some _ := number?_of_drop hb₄ h.length_stamps (by decide)
  have hvalid : ¬ (0x8b1f ≠ 0x8b1f ∨ 8 ≠ 8 ∨ 32 ≤ h.flags) := by
    have := h.flags_lt
    omega
  obtain ⟨hbit₁, hbit₂, hbit₃, hbit₄⟩ := h.testBit_flags
  have hextra := skip_extraBytes hb₁₀ h.extra_lt
  have hbname := drop_of_drop hb₁₀
  have hname := skip_textBytes hbname h.name_le
  have hcomment := skip_textBytes (drop_of_drop hbname) h.comment_le
  rw [← h.length_front] at hcomment
  simp only [readHeader, hmagic, hmethod, hflags, hstamps, need, bind, Except.bind, if_neg hvalid,
    hbit₁, hbit₂, hbit₃, hbit₄, hextra, hname, hcomment, hchecksum, bytes]

end Header

/-! ## Members -/

/-- **A member is read back**, whatever its header says and whatever blocks its data have. -/
theorem decode_member (h : Header) {p : Nat} {blocks : List Block} {behind : List UInt8}
    (hb : toList b = h.bytes ++ behind) (hblocks : HoldsAll b (8 * h.bytes.length) blocks p)
    (htrailer : (toList b).drop ((p + 7) / 8) =
      littleEndianBytes 4 (crc32 (content blocks)).toNat ++
        (littleEndianBytes 4 (content blocks).size ++ rest)) :
    decode b = .ok (content blocks) :=
  decode_of_inflate (h.readHeader_of_bytes hb) (inflate_of_holdsAll hblocks) htrailer

end SessionMux.Gzip
