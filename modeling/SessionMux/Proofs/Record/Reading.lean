import Mathlib.Data.List.Basic
import SessionMux.Proofs.Octets
import SessionMux.Record.Basic

/-!
# What a reader reads

`Reads x P` says all there is to say of a reader that ends well: it comes to `a` exactly where a word
that `P` admits for `a` stands in front, and it takes that word and nothing else. `P` is the grammar
of the reader. The parts of a record lie side by side, so the grammar of a reader is put together
from the grammars of its parts by `Reads.bind`.

* `Reads` — the law of a reader.
* `Reads.pure`, `Reads.bind`, `Reads.throw` — the grammars of what readers are put together from.
* **`reads_byte`**, **`reads_number`**, **`reads_take`**, **`reads_alternative`**,
  **`reads_sequence`** — the grammars of the parts of records.
-/

namespace SessionMux

namespace Record

open Octets

/-- The place `n` bytes further on. -/
def Cursor.advance (c : Cursor) (n : Nat) : Cursor := { c with position := c.position + n }

theorem Cursor.rest_advance (c : Cursor) (n : Nat) : (c.advance n).rest = c.rest.drop n := by
  simp only [Cursor.rest, Cursor.advance, List.drop_drop]

theorem Cursor.advance_advance (c : Cursor) (m n : Nat) :
    (c.advance m).advance n = c.advance (m + n) := by
  simp only [Cursor.advance, Nat.add_assoc]

/-- **The law of a reader**: it comes to `a` exactly where a word that `P` admits for `a` stands in
front, and takes that word. -/
def Reads {α : Type} (x : Reader α) (P : α → List UInt8 → Prop) : Prop :=
  ∀ (c : Cursor) (a : α) (c' : Cursor),
    x c = .ok (a, c') ↔ ∃ w, P a w ∧ w <+: c.rest ∧ c' = c.advance w.length

/-! ## Putting readers together -/

section Combining

variable {α β : Type} {x : Reader α} {f : α → Reader β} {P P' : α → List UInt8 → Prop}

theorem Reads.congr (h : Reads x P) (hP : ∀ a w, P a w ↔ P' a w) : Reads x P' := by
  intro c a c'
  simp only [h c a c', hP]

/-- One reader after another ends well exactly if both do. -/
theorem bind_eq_ok_iff {c c'' : Cursor} {b : β} :
    (x >>= f) c = .ok (b, c'') ↔ ∃ a c', x c = .ok (a, c') ∧ f a c' = .ok (b, c'') := by
  show (x c >>= fun p => f p.1 p.2) = _ ↔ _
  cases x c with
  | error fault => simp [Bind.bind, Except.bind]
  | ok p =>
    obtain ⟨a, c'⟩ := p
    show f a c' = _ ↔ _
    simp

theorem Reads.pure (a : α) : Reads (Pure.pure a) fun b w => b = a ∧ w = [] := by
  intro c b c'
  show Except.ok (a, c) = _ ↔ _
  constructor
  · intro h
    cases h
    exact ⟨[], ⟨rfl, rfl⟩, List.nil_prefix, rfl⟩
  · rintro ⟨w, ⟨rfl, rfl⟩, -, rfl⟩
    rfl

/-- What fails reads nothing. -/
theorem Reads.throw (fault : Fault) : Reads (MonadExcept.throw fault : Reader α) fun _ _ => False := by
  intro c a c'
  constructor
  · intro h
    cases h
  · rintro ⟨w, h, -⟩
    exact h.elim

/-- **One part after another** reads a word of the one and then a word of the other. -/
theorem Reads.bind (hx : Reads x P) {Q : α → β → List UInt8 → Prop}
    (hf : ∀ a, (∃ w, P a w) → Reads (f a) (Q a)) :
    Reads (x >>= f) fun b w => ∃ a w₁ w₂, P a w₁ ∧ Q a b w₂ ∧ w = w₁ ++ w₂ := by
  intro c b c''
  rw [bind_eq_ok_iff]
  constructor
  · rintro ⟨a, c', h₁, h₂⟩
    obtain ⟨w₁, hw₁, hc, rfl⟩ := (hx c a c').mp h₁
    obtain ⟨w₂, hw₂, hc', rfl⟩ := (hf a ⟨w₁, hw₁⟩ _ b c'').mp h₂
    refine ⟨w₁ ++ w₂, ⟨a, w₁, w₂, hw₁, hw₂, rfl⟩, ?_, ?_⟩
    · obtain ⟨rest, hrest⟩ := hc
      rw [Cursor.rest_advance, ← hrest, List.drop_left] at hc'
      rw [← hrest]
      exact (List.prefix_append_right_inj w₁).mpr hc'
    · rw [Cursor.advance_advance, List.length_append]
  · rintro ⟨w, ⟨a, w₁, w₂, hw₁, hw₂, rfl⟩, hc, rfl⟩
    have hc₁ : w₁ <+: c.rest := (List.prefix_append w₁ w₂).trans hc
    refine ⟨a, c.advance w₁.length, (hx c a _).mpr ⟨w₁, hw₁, hc₁, rfl⟩,
      (hf a ⟨w₁, hw₁⟩ _ b _).mpr ⟨w₂, hw₂, ?_, ?_⟩⟩
    · obtain ⟨rest, hrest⟩ := hc₁
      rw [Cursor.rest_advance, ← hrest, List.drop_left]
      rw [← hrest] at hc
      exact (List.prefix_append_right_inj w₁).mp hc
    · rw [Cursor.advance_advance, List.length_append]

end Combining

/-! ## Parts -/

theorem reads_byte : Reads byte fun v w => w = [v] := by
  intro c v c'
  have hlen : c.rest.length = c.bytes.size - c.position := by
    rw [Cursor.rest, List.length_drop, length_toList]
  have hget : ∀ h : c.position < c.bytes.size,
      c.rest = c.bytes[c.position] :: c.rest.drop 1 := by
    intro h
    rw [Cursor.rest, List.drop_drop]
    exact List.drop_eq_getElem_cons (show c.position < (toList c.bytes).length from h)
  rw [byte]
  constructor
  · intro h
    split at h
    · rename_i hc
      cases h
      refine ⟨[_], rfl, ?_, rfl⟩
      rw [hget hc]
      exact ⟨_, rfl⟩
    · cases h
  · rintro ⟨w, rfl, ⟨rest, hrest⟩, rfl⟩
    have hc : c.position < c.bytes.size := by
      rw [← hrest] at hlen
      simp at hlen
      omega
    rw [dif_pos hc]
    rw [hget hc] at hrest
    rw [← (List.cons.inj hrest).1]
    rfl

/-- A number is read from the bytes that it is written in, and from no others. -/
theorem reads_number (n : Nat) :
    Reads (number n) fun v w => v < 256 ^ n ∧ w = littleEndianBytes n v := by
  induction n with
  | zero =>
    refine (Reads.pure 0).congr ?_
    intro v w
    simp [littleEndianBytes]
  | succ n ih =>
    refine (reads_byte.bind fun low _ => ih.bind fun high _ =>
      Reads.pure (low.toNat + 256 * high)).congr ?_
    intro v w
    constructor
    · rintro ⟨low, _, _, rfl, ⟨high, _, _, ⟨hhigh, rfl⟩, ⟨rfl, rfl⟩, rfl⟩, rfl⟩
      have hlow := low.toNat_lt
      have hdiv : (low.toNat + 256 * high) / 256 = high := by omega
      have hbyte : (low.toNat + 256 * high).toUInt8 = low := by
        apply UInt8.toNat_inj.mp
        rw [show (low.toNat + 256 * high).toUInt8.toNat = (low.toNat + 256 * high) % 256
          from UInt8.toNat_ofNat']
        omega
      refine ⟨by rw [Nat.pow_succ]; omega, ?_⟩
      rw [littleEndianBytes, hdiv, hbyte, List.append_nil, List.singleton_append]
    · rintro ⟨hv, rfl⟩
      have hlow : v.toUInt8.toNat = v % 256 := UInt8.toNat_ofNat'
      refine ⟨v.toUInt8, _, _, rfl, ⟨v / 256, _, _, ⟨?_, rfl⟩, ⟨?_, rfl⟩, rfl⟩, ?_⟩
      · rw [Nat.pow_succ] at hv
        omega
      · omega
      · rw [littleEndianBytes, List.append_nil, List.singleton_append]

theorem toList_writeNumber (n v : Nat) : toList (writeNumber n v) = littleEndianBytes n v :=
  toList_ofList _

theorem reads_take (n : Nat) (fault : Fault) :
    Reads (take n fault) fun b w => b.size = n ∧ w = toList b := by
  intro c b c'
  have hlen : c.rest.length = c.left := by
    rw [Cursor.rest, List.length_drop, length_toList, Cursor.left]
  have hextract : toList (c.bytes.extract c.position (c.position + n)) = c.rest.take n :=
    toList_extract _ _ _
  rw [take]
  constructor
  · intro h
    split at h
    · rename_i hfit
      cases h
      have hsize : (c.bytes.extract c.position (c.position + n)).size = n := by
        rw [← length_toList, hextract, List.length_take]
        omega
      refine ⟨_, ⟨hsize, rfl⟩, ?_, ?_⟩
      · rw [hextract]
        exact List.take_prefix n _
      · rw [length_toList, hsize]
        rfl
    · cases h
  · rintro ⟨w, ⟨rfl, rfl⟩, hc, rfl⟩
    have hfit : b.size ≤ c.left := by
      rw [← hlen, ← length_toList]
      exact hc.length_le
    have hb : c.bytes.extract c.position (c.position + b.size) = b := by
      apply toList_injective
      rw [hextract, ← length_toList]
      exact (List.prefix_iff_eq_take.mp hc).symm
    rw [if_pos hfit, hb]
    rfl

theorem reads_alternative {count : Nat} (hcount : count ≤ 256 ^ 4) :
    Reads (alternative count) fun n w => n < count ∧ w = littleEndianBytes 4 n := by
  have hcheck : ∀ n : Nat, Reads
      (if n < count then Pure.pure n else MonadExcept.throw (.alternative n.toUInt32 count))
      fun m w => n < count ∧ m = n ∧ w = [] := by
    intro n
    split
    · rename_i hn
      exact (Reads.pure n).congr fun m w => by simp [hn]
    · rename_i hn
      exact (Reads.throw _).congr fun m w => by simp [hn]
  refine ((reads_number 4).bind fun n _ => hcheck n).congr ?_
  intro m w
  constructor
  · rintro ⟨n, _, _, ⟨-, rfl⟩, ⟨hn, rfl, rfl⟩, rfl⟩
    exact ⟨hn, List.append_nil _⟩
  · rintro ⟨hm, rfl⟩
    exact ⟨m, _, _, ⟨Nat.lt_of_lt_of_le hm hcount, rfl⟩, ⟨hm, rfl, rfl⟩, (List.append_nil _).symm⟩

/-- The values of a list are read one after another. -/
theorem reads_sequence {α : Type} {x : Reader α} {fits : α → Prop} {w : α → List UInt8}
    (hx : Reads x fun a u => fits a ∧ u = w a) (n : Nat) :
    Reads (sequence x n) fun l u => l.length = n ∧ (∀ a ∈ l, fits a) ∧ u = l.flatMap w := by
  induction n with
  | zero =>
    refine (Reads.pure []).congr ?_
    intro l u
    constructor
    · rintro ⟨rfl, rfl⟩
      simp
    · rintro ⟨hl, -, rfl⟩
      obtain rfl := List.eq_nil_of_length_eq_zero hl
      exact ⟨rfl, rfl⟩
  | succ n ih =>
    refine (hx.bind fun a _ => ih.bind fun r _ => Reads.pure (a :: r)).congr ?_
    intro l u
    constructor
    · rintro ⟨a, _, _, ⟨ha, rfl⟩, ⟨r, _, _, ⟨rfl, hr, rfl⟩, ⟨rfl, rfl⟩, rfl⟩, rfl⟩
      refine ⟨rfl, ?_, by simp⟩
      intro b hb
      rcases List.mem_cons.mp hb with rfl | hb
      · exact ha
      · exact hr b hb
    · rintro ⟨hl, hfits, rfl⟩
      cases l with
      | nil => cases hl
      | cons a r =>
        refine ⟨a, _, _, ⟨hfits a List.mem_cons_self, rfl⟩, ⟨r, _, _, ⟨?_, ?_, rfl⟩, ⟨rfl, rfl⟩, rfl⟩, ?_⟩
        · exact Nat.succ.inj hl
        · exact fun b hb => hfits b (List.mem_cons_of_mem a hb)
        · simp

end Record

end SessionMux
