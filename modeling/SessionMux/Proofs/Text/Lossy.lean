import Mathlib.Tactic.SplitIfs
import SessionMux.Proofs.Octets
import SessionMux.Text.Utf8

/-!
# What lossy reading keeps

Lossy reading changes bytes that are not ASCII: a character that is cut in two becomes several
replacements, and a bad part becomes one of three bytes. It changes no ASCII byte, and it neither
closes nor opens a gap between two of them.

* `Alike` — two byte strings with the same ASCII bytes in the same order, and with other bytes in
  between at the same places, however many.
* `Spells` — the bits read so far of a character make a character with whatever is accepted next.
* `Lossy.Shows` — the invariant of lossy reading: the bytes read are like the text, but for those of
  the character that is being read.
* **`alike_decodeLossy`** — the bytes and their lossy text are alike.
-/

namespace SessionMux

namespace Octets

/-! ## Byte strings that are alike -/

/-- A part of a byte string without ASCII bytes. -/
structure Foreign (u : List UInt8) : Prop where
  ne_nil : u ≠ []
  above : ∀ c ∈ u, 128 ≤ c

theorem Foreign.append {u v : List UInt8} (hu : Foreign u) (hv : Foreign v) : Foreign (u ++ v) := by
  refine ⟨List.append_ne_nil_of_left_ne_nil hu.ne_nil v, fun c hc => ?_⟩
  rw [List.mem_append] at hc
  exact hc.elim (hu.above c) (hv.above c)

theorem foreign_singleton {c : UInt8} (h : 128 ≤ c) : Foreign [c] := by
  refine ⟨List.cons_ne_nil c [], fun x hx => ?_⟩
  rw [List.mem_singleton] at hx
  rwa [hx]

/-- Two byte strings with the same ASCII bytes, and other bytes at the same places between them. -/
inductive Alike : List UInt8 → List UInt8 → Prop
  | nil : Alike [] []
  | ascii {c : UInt8} {s t : List UInt8} (hc : c < 128) (h : Alike s t) : Alike (c :: s) (c :: t)
  | foreign {u v s t : List UInt8} (hu : Foreign u) (hv : Foreign v) (h : Alike s t) :
      Alike (u ++ s) (v ++ t)

theorem Foreign.alike {u v : List UInt8} (hu : Foreign u) (hv : Foreign v) : Alike u v := by
  have h := Alike.foreign hu hv .nil
  rwa [List.append_nil, List.append_nil] at h

theorem Alike.refl (s : List UInt8) : Alike s s := by
  induction s with
  | nil => exact .nil
  | cons c s ih =>
    by_cases hc : c < 128
    · exact .ascii hc ih
    · have hu := foreign_singleton (UInt8.not_lt.mp hc)
      exact .foreign hu hu ih

theorem Alike.append {s t s' t' : List UInt8} (h : Alike s t) (h' : Alike s' t') :
    Alike (s ++ s') (t ++ t') := by
  induction h with
  | nil => exact h'
  | ascii hc _ ih => exact .ascii hc ih
  | foreign hu hv _ ih =>
    rw [List.append_assoc, List.append_assoc]
    exact .foreign hu hv ih

/-! ## The bytes of a character -/

theorem utf8EncodeChar_ascii {c : Char} (h : c.toNat < 128) :
    String.utf8EncodeChar c = [UInt8.ofNat c.toNat] :=
  if_pos (Nat.le_of_lt_succ h)

/-- A character that is not ASCII has no ASCII byte. -/
theorem foreign_utf8EncodeChar {c : Char} (h : 128 ≤ c.toNat) :
    Foreign (String.utf8EncodeChar c) := by
  have habove : ∀ n, 128 ≤ n → n < 256 → 128 ≤ UInt8.ofNat n := fun n hn hn' => by
    rw [UInt8.le_iff_toNat_le, UInt8.toNat_ofNat', Nat.mod_eq_of_lt hn']
    exact hn
  have hc : ¬ c.val.toNat ≤ 127 := Nat.not_le.mpr h
  constructor
  · rw [String.utf8EncodeChar]
    grind
  · intro x hx
    rw [String.utf8EncodeChar] at hx
    simp only [if_neg hc] at hx
    split at hx
    · simp only [List.mem_cons, List.not_mem_nil, or_false] at hx
      rcases hx with rfl | rfl <;> exact habove _ (by omega) (by omega)
    · split at hx
      · simp only [List.mem_cons, List.not_mem_nil, or_false] at hx
        rcases hx with rfl | rfl | rfl <;> exact habove _ (by omega) (by omega)
      · simp only [List.mem_cons, List.not_mem_nil, or_false] at hx
        rcases hx with rfl | rfl | rfl | rfl <;> exact habove _ (by omega) (by omega)

end Octets

namespace Utf8

open Octets

theorem toNat_ofNat {n : Nat} (h : n.isValidChar) : (Char.ofNat n).toNat = n := by
  rw [Char.ofNat, dif_pos h]
  rfl

/-! ## Characters as they are read -/

/-- The number of a character that is not ASCII. -/
structure BeyondAscii (n : Nat) : Prop where
  valid : n.isValidChar
  above : 128 ≤ n

/-- With these bits read, and so many bytes to come behind the next one, whatever is accepted is not
ASCII and makes a character that is not. -/
def Spells : Nat → UInt8 → UInt8 → Nat → Prop
  | 0, lo, hi, bits =>
    ∀ b : UInt8, lo ≤ b → b ≤ hi → 128 ≤ b ∧ BeyondAscii (bits * 64 + b.toNat % 64)
  | n + 1, lo, hi, bits =>
    ∀ b : UInt8, lo ≤ b → b ≤ hi → 128 ≤ b ∧ Spells n 0x80 0xBF (bits * 64 + b.toNat % 64)

theorem BeyondAscii.foreign {n : Nat} (h : BeyondAscii n) :
    Foreign (String.utf8EncodeChar (Char.ofNat n)) :=
  foreign_utf8EncodeChar (by rw [toNat_ofNat h.valid]; exact h.above)

/-! Of one, two and three continuation bytes: the bits of the first byte, and the range of the
second. -/

section Lead

variable {bits : Nat} {lo hi : UInt8}

theorem spells_one (h : 2 ≤ bits) (h' : bits < 32) : Spells 0 0x80 0xBF bits := by
  intro b hb _
  exact ⟨hb, .inl (by omega), by omega⟩

/-- Overlong forms and surrogates are excluded by the range of the second byte. -/
theorem spells_two (h : bits < 16) (hlo : 0x80 ≤ lo) (hhi : hi ≤ 0xBF) (hlong : bits = 0 → 0xA0 ≤ lo)
    (hsurrogate : bits = 13 → hi ≤ 0x9F) : Spells 1 lo hi bits := by
  intro b hb hb'
  refine ⟨UInt8.le_trans hlo hb, fun c hc hc' => ⟨hc, ?_, ?_⟩⟩
  all_goals simp only [UInt8.le_iff_toNat_le, UInt8.reduceToNat] at *
  · rw [Nat.isValidChar]
    omega
  · omega

/-- Overlong forms and values above U+10FFFF are excluded by the range of the second byte. -/
theorem spells_three (h : bits < 5) (hlo : 0x80 ≤ lo) (hhi : hi ≤ 0xBF)
    (hlong : bits = 0 → 0x90 ≤ lo) (hhigh : bits = 4 → hi ≤ 0x8F) : Spells 2 lo hi bits := by
  intro b hb hb'
  refine ⟨UInt8.le_trans hlo hb, fun c hc hc' => ⟨hc, fun d hd hd' => ⟨hd, ?_, ?_⟩⟩⟩
  all_goals simp only [UInt8.le_iff_toNat_le, UInt8.reduceToNat] at *
  · exact .inr (by omega)
  · omega

end Lead

namespace Expect

variable {b : UInt8}

/-- An ASCII byte is a character. -/
theorem read_first_ascii (h : b < 128) : first.read b = .accept .first := if_pos h

theorem above_of_lead {lo hi : UInt8} {more : Nat}
    (h : first.read b = .accept (.continuation lo hi more)) : 128 ≤ b := by
  rw [← UInt8.not_lt]
  intro hb
  rw [read_first_ascii hb] at h
  cases h

theorem above_of_refuse (h : first.read b = .refuse) : 128 ≤ b := by
  rw [← UInt8.not_lt]
  intro hb
  rw [read_first_ascii hb] at h
  cases h

/-- No other byte is a character by itself. -/
theorem lt_of_accept_first (h : first.read b = .accept .first) : b < 128 := by
  by_cases hb : b < 128
  · exact hb
  · rw [read, if_neg hb] at h
    split_ifs at h <;> cases h

end Expect

/-- **Every first byte that is accepted leads to characters only.** -/
theorem spells_lead {b lo hi : UInt8} {more : Nat}
    (h : Expect.first.read b = .accept (.continuation lo hi more)) : Spells more lo hi (leadBits b) := by
  have habove := Expect.above_of_lead h
  rw [Expect.read, if_neg (UInt8.not_lt.mpr habove)] at h
  rw [leadBits, if_neg (UInt8.not_lt.mpr habove)]
  simp only [UInt8.le_iff_toNat_le, UInt8.lt_iff_toNat_lt, ← UInt8.toNat_inj,
    UInt8.reduceToNat] at h habove ⊢
  have hb := b.toNat_lt
  split_ifs at h <;> cases h
  · rw [if_pos (by omega)]
    exact spells_one (by omega) (by omega)
  · rw [if_neg (by omega), if_pos (by omega)]
    exact spells_two (by omega) (by decide) (by decide) (fun _ => by decide) (by omega)
  · rw [if_neg (by omega), if_pos (by omega)]
    exact spells_two (by omega) (by decide) (by decide) (by omega) (fun _ => by decide)
  · rw [if_neg (by omega), if_pos (by omega)]
    exact spells_two (by omega) (by decide) (by decide) (by omega) (by omega)
  · rw [if_neg (by omega), if_neg (by omega)]
    exact spells_three (by omega) (by decide) (by decide) (fun _ => by decide) (by omega)
  · rw [if_neg (by omega), if_neg (by omega)]
    exact spells_three (by omega) (by decide) (by decide) (by omega) (by omega)
  · rw [if_neg (by omega), if_neg (by omega)]
    exact spells_three (by omega) (by decide) (by decide) (by omega) (fun _ => by decide)

/-! ## Reading byte by byte -/

namespace Lossy

/-- What the state says of the bytes read of the character that is being read. -/
def Pending (l : Lossy) (u : List UInt8) : Prop :=
  match l.expect with
  | .first => u = []
  | .continuation lo hi more => Foreign u ∧ Spells more lo hi l.bits

/-- **The invariant of lossy reading**: of the bytes read, those before the character that is being
read are like the text. -/
def Shows (l : Lossy) (read : List UInt8) : Prop :=
  ∃ q u, read = q ++ u ∧ Alike q (toList l.text.toUTF8) ∧ l.Pending u

theorem foreign_replacement : Foreign (String.utf8EncodeChar replacement) :=
  foreign_utf8EncodeChar (by decide)

/-- A byte read where a character may start. -/
theorem shows_start {s : String} {q : List UInt8} (h : Alike q (toList s.toUTF8)) (b : UInt8) :
    (Lossy.start s b).Shows (q ++ [b]) := by
  rw [Lossy.start]
  cases hread : Expect.first.read b with
  | accept next =>
    cases next with
    | first =>
      have hb := Expect.lt_of_accept_first hread
      have hnat : b.toNat < 128 := UInt8.lt_iff_toNat_lt.mp hb
      have hchar : (Char.ofNat b.toNat).toNat = b.toNat := toNat_ofNat (.inl (by omega))
      refine ⟨q ++ [b], [], (List.append_nil _).symm, ?_, rfl⟩
      rw [toList_push, utf8EncodeChar_ascii (by omega), hchar, UInt8.ofNat_toNat]
      exact h.append (.ascii hb .nil)
    | continuation lo hi more =>
      exact ⟨q, [b], rfl, h, foreign_singleton (Expect.above_of_lead hread), spells_lead hread⟩
  | refuse =>
    have hb := foreign_singleton (Expect.above_of_refuse hread)
    refine ⟨q ++ [b], [], (List.append_nil _).symm, ?_, rfl⟩
    rw [toList_push]
    exact h.append (hb.alike foreign_replacement)

/-- **One byte keeps the invariant.** -/
theorem Shows.read {l : Lossy} {r : List UInt8} (h : l.Shows r) (b : UInt8) :
    (l.read b).Shows (r ++ [b]) := by
  obtain ⟨text, expect, bits⟩ := l
  obtain ⟨q, u, rfl, hq, hu⟩ := h
  cases expect with
  | first =>
    obtain rfl : u = [] := hu
    rw [List.append_nil]
    exact shows_start hq b
  | continuation lo hi more =>
    obtain ⟨hu, hspells⟩ : Foreign u ∧ Spells more lo hi bits := hu
    rw [Lossy.read]
    by_cases hb : lo ≤ b ∧ b ≤ hi
    · cases more with
      | zero =>
        -- the character is complete
        obtain ⟨habove, hchar⟩ := hspells b hb.1 hb.2
        simp only [Expect.read, if_pos hb]
        refine ⟨q ++ (u ++ [b]), [], by rw [List.append_nil, List.append_assoc], ?_, rfl⟩
        rw [toList_push]
        exact hq.append ((hu.append (foreign_singleton habove)).alike hchar.foreign)
      | succ n =>
        obtain ⟨habove, hmore⟩ := hspells b hb.1 hb.2
        simp only [Expect.read, if_pos hb]
        exact ⟨q, u ++ [b], List.append_assoc q u [b], hq,
          hu.append (foreign_singleton habove), hmore⟩
    · -- what has been read of the character is one replacement
      simp only [Expect.read, if_neg hb]
      refine shows_start ?_ b
      rw [toList_push]
      exact hq.append (hu.alike foreign_replacement)

/-- **Bytes in a row keep the invariant.** -/
theorem Shows.foldl {l : Lossy} {r : List UInt8} (h : l.Shows r) (bytes : List UInt8) :
    (bytes.foldl Lossy.read l).Shows (r ++ bytes) := by
  induction bytes generalizing l r with
  | nil => rwa [List.append_nil]
  | cons b bytes ih =>
    rw [List.append_cons]
    exact ih (h.read b)

/-- At the end a character that is not complete is one replacement. -/
theorem Shows.finish {l : Lossy} {r : List UInt8} (h : l.Shows r) :
    Alike r (toList l.finish.toUTF8) := by
  obtain ⟨text, expect, bits⟩ := l
  obtain ⟨q, u, rfl, hq, hu⟩ := h
  cases expect with
  | first =>
    obtain rfl : u = [] := hu
    rw [List.append_nil]
    exact hq
  | continuation lo hi more =>
    show Alike (q ++ u) (toList (text.push replacement).toUTF8)
    rw [toList_push]
    exact hq.append (hu.1.alike foreign_replacement)

end Lossy

/-- **Bytes and their lossy text are alike.** -/
theorem alike_decodeLossy (b : ByteArray) : Alike (toList b) (toList (decodeLossy b).toUTF8) := by
  have hstart : ({} : Lossy).Shows [] := ⟨[], [], rfl, .nil, rfl⟩
  rw [decodeLossy, fold_eq]
  exact (hstart.foldl (toList b)).finish

end Utf8

end SessionMux
