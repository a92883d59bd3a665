import SessionMux.Proofs.Record.Reading

/-!
# Values that are read exactly as they are written

A number of eight bytes tells the length of a text or a list, so a value can be written only if all
its lengths are below `2 ^ 64`: it `Fits`. The types here are `Exact`: their readers come to the
values that fit, each from the bytes that it is written in and from no others, whatever follows.

The reader of a record takes one field after another. Of what it takes while some fields are already
known, `Completes` tells the rest, so a record is put together from its fields by `Completes.field`
and `Completes.last`, and a choice from its alternatives by `Describes.choice`.

* `Sized`, `Fits` — whether a value can be written.
* `Describes`, `Completes` — the law of a reader of whole values, and of the rest of a value.
* **`Exact`** — the class of the types whose reader is described by their writer; its instances for
  numbers, flags, texts, bytes, optional values and lists.
* **`decode_eq_ok_iff`** — what is decoded, and from which bytes.
* **`eq_of_write_prefix`** — no value is written in the beginning of what another is written in;
  **`decode_ne_of_cut`** — so nothing is decoded from a value that is cut.
-/

namespace SessionMux

namespace Record

open Octets

/-- Types whose values may have lengths. -/
class Sized (α : Type) where
  /-- Every length in the value can be written in eight bytes. -/
  Fits : α → Prop

export Sized (Fits)

/-- A reader comes to the values that `fits` admits, each from the bytes `w` of it; fewer than
`2 ^ 64` bytes are always admitted, and no value has none. -/
structure Describes {α : Type} (x : Reader α) (fits : α → Prop) (w : α → List UInt8) : Prop where
  reads : Reads x fun a u => fits a ∧ u = w a
  fits_of_length : ∀ a, (w a).length < 2 ^ 64 → fits a
  length_pos : ∀ a, 0 < (w a).length

/-- What is written is read back, and nothing else is read. -/
class Exact (α : Type) [Record α] [Sized α] : Prop where
  describes : Describes (read : Reader α) Fits fun a => toList (write a)

/-! ## Decoding -/

section Decoding

variable {α : Type} [Record α] [Sized α] [Exact α]

theorem fits_of_size (a : α) (h : (write a).size < 2 ^ 64) : Fits a :=
  Exact.describes.fits_of_length a (by rwa [length_toList])

/-- **What is decoded, and from which bytes**: the values that fit, each from whatever begins with the
bytes that it is written in. -/
theorem decode_eq_ok_iff {b : ByteArray} {a : α} :
    decode α b = .ok a ↔ Fits a ∧ toList (write a) <+: toList b := by
  have hreads := (Exact.describes (α := α)).reads ⟨b, 0⟩ a
  have hrest : (Cursor.mk b 0).rest = toList b := List.drop_zero
  rw [decode]
  show ((read : Reader α) ⟨b, 0⟩).map Prod.fst = _ ↔ _
  constructor
  · intro h
    cases hx : (read : Reader α) ⟨b, 0⟩ with
    | error fault =>
      rw [hx] at h
      cases h
    | ok p =>
      obtain ⟨a', c'⟩ := p
      rw [hx] at h
      cases h
      obtain ⟨w, ⟨hfits, rfl⟩, hc, -⟩ := (hreads c').mp hx
      exact ⟨hfits, by rwa [hrest] at hc⟩
  · rintro ⟨hfits, hb⟩
    have hx := (hreads _).mpr ⟨_, ⟨hfits, rfl⟩, by rwa [hrest], rfl⟩
    rw [hx]
    rfl

theorem decode_write {a : α} (h : Fits a) : decode α (write a) = .ok a :=
  decode_eq_ok_iff.mpr ⟨h, List.prefix_rfl⟩

/-- What is decoded to a value is the bytes of the value and a rest. -/
theorem exists_decode_iff {P : ByteArray → Prop} {a : α} :
    (∃ b, P b ∧ decode α b = .ok a) ↔ Fits a ∧ ∃ rest, P (write a ++ rest) := by
  simp only [decode_eq_ok_iff, toList_prefix_iff]
  constructor
  · rintro ⟨_, hb, hfits, rest, rfl⟩
    exact ⟨hfits, rest, hb⟩
  · rintro ⟨hfits, rest, hb⟩
    exact ⟨_, hb, hfits, rest, rfl⟩

/-- **No value is written in the beginning of what another is written in.** -/
theorem eq_of_write_prefix {a a' : α} (h : Fits a) (h' : Fits a')
    (hw : toList (write a) <+: toList (write a')) : a = a' := by
  have hdecode := decode_eq_ok_iff.mpr ⟨h, hw⟩
  rw [decode_write h'] at hdecode
  exact (Except.ok.inj hdecode).symm

/-- **A value that is cut anywhere is not decoded**, as this value or as another. -/
theorem decode_ne_of_cut {a a' : α} (ha : Fits a) {b : ByteArray}
    (hcut : toList b <+: toList (write a)) (hne : b ≠ write a) : decode α b ≠ .ok a' := by
  intro h
  obtain ⟨hfits, hb⟩ := decode_eq_ok_iff.mp h
  obtain rfl := eq_of_write_prefix hfits ha (hb.trans hcut)
  exact hne (toList_injective (hcut.eq_of_length_le hb.length_le))

end Decoding

/-- The same law, told otherwise. -/
theorem Describes.congr {α : Type} {x : Reader α} {fits fits' : α → Prop} {w w' : α → List UInt8}
    (h : Describes x fits w) (hfits : ∀ a, fits a ↔ fits' a) (hw : ∀ a, w a = w' a) :
    Describes x fits' w' := by
  obtain rfl : fits = fits' := funext fun a => propext (hfits a)
  obtain rfl : w = w' := funext hw
  exact h

/-! ## Records and choices -/

/-- A reader completes the values of which `known` holds already, each from the bytes `w` of it. -/
structure Completes {β : Type} (x : Reader β) (known fits : β → Prop) (w : β → List UInt8) :
    Prop where
  reads : Reads x fun b u => known b ∧ fits b ∧ u = w b
  fits_of_length : ∀ b, known b → (w b).length < 2 ^ 64 → fits b

section Parts

variable {α β : Type} [Record α] [Sized α] [Exact α] {known fits : β → Prop}
  {w : β → List UInt8}

/-- One field, and then the rest of the record. -/
theorem Completes.field (π : β → α) {f : α → Reader β}
    (hf : ∀ a, Completes (f a) (fun b => known b ∧ π b = a) fits w) :
    Completes (read >>= f) known (fun b => Fits (π b) ∧ fits b)
      (fun b => toList (write (π b)) ++ w b) where
  reads := by
    refine (Exact.describes.reads.bind fun a _ => (hf a).reads).congr ?_
    intro b u
    constructor
    · rintro ⟨a, _, _, ⟨ha, rfl⟩, ⟨⟨hb, rfl⟩, hfits, rfl⟩, rfl⟩
      exact ⟨hb, ⟨ha, hfits⟩, rfl⟩
    · rintro ⟨hb, ⟨ha, hfits⟩, rfl⟩
      exact ⟨π b, _, _, ⟨ha, rfl⟩, ⟨⟨hb, rfl⟩, hfits, rfl⟩, rfl⟩
  fits_of_length := by
    intro b hb hlen
    rw [List.length_append] at hlen
    exact ⟨Exact.describes.fits_of_length _ (by omega),
      (hf (π b)).fits_of_length b ⟨hb, rfl⟩ (by omega)⟩

/-- The last field, when only its value is left to be put in place. -/
theorem Completes.last (π : β → α) {g : α → β} (hg : ∀ a b, b = g a ↔ known b ∧ π b = a) :
    Completes (read >>= fun a => pure (g a)) known (fun b => Fits (π b))
      (fun b => toList (write (π b))) where
  reads := by
    refine (Exact.describes.reads.bind fun a _ => Reads.pure (g a)).congr ?_
    intro b u
    constructor
    · rintro ⟨a, _, _, ⟨ha, rfl⟩, ⟨hb, rfl⟩, rfl⟩
      obtain ⟨hknown, rfl⟩ := (hg a b).mp hb
      exact ⟨hknown, ha, List.append_nil _⟩
    · rintro ⟨hknown, ha, rfl⟩
      exact ⟨π b, _, _, ⟨ha, rfl⟩, ⟨(hg _ b).mpr ⟨hknown, rfl⟩, rfl⟩, (List.append_nil _).symm⟩
  fits_of_length := fun b _ hlen => Exact.describes.fits_of_length _ hlen

/-- An alternative, when what was chosen is left to be read. -/
theorem Completes.alternative (g : α → β) (hg : ∀ b, known b ↔ ∃ a, b = g a)
    (hfits : ∀ a, fits (g a) ↔ Fits a) (hw : ∀ a, w (g a) = toList (write a)) :
    Completes (read >>= fun a => pure (g a)) known fits w where
  reads := by
    refine (Exact.describes.reads.bind fun a _ => Reads.pure (g a)).congr ?_
    intro b u
    constructor
    · rintro ⟨a, _, _, ⟨ha, rfl⟩, ⟨rfl, rfl⟩, rfl⟩
      exact ⟨(hg _).mpr ⟨a, rfl⟩, (hfits a).mpr ha, by rw [hw, List.append_nil]⟩
    · rintro ⟨hb, hb', rfl⟩
      obtain ⟨a, rfl⟩ := (hg b).mp hb
      exact ⟨a, _, _, ⟨(hfits a).mp hb', rfl⟩, ⟨rfl, rfl⟩, by rw [hw, List.append_nil]⟩
  fits_of_length := by
    intro b hb hlen
    obtain ⟨a, rfl⟩ := (hg b).mp hb
    rw [hw] at hlen
    exact (hfits a).mpr (Exact.describes.fits_of_length a hlen)

/-- An alternative with nothing in it. -/
theorem Completes.bare (b : β) (hknown : ∀ b', known b' ↔ b' = b) (hfits : fits b)
    (hw : w b = []) : Completes (pure b) known fits w where
  reads := by
    refine (Reads.pure b).congr ?_
    intro b' u
    constructor
    · rintro ⟨rfl, rfl⟩
      exact ⟨(hknown b').mpr rfl, hfits, hw.symm⟩
    · rintro ⟨hb, -, rfl⟩
      obtain rfl := (hknown b').mp hb
      exact ⟨rfl, hw⟩
  fits_of_length := by
    intro b' hb _
    obtain rfl := (hknown b').mp hb
    exact hfits

/-- A reader that completes values of which nothing is known reads them as a whole. -/
theorem Completes.describes {x : Reader β} (h : Completes x (fun _ => True) fits w)
    (hpos : ∀ b, 0 < (w b).length) : Describes x fits w where
  reads := h.reads.congr (by simp)
  fits_of_length := fun b hlen => h.fits_of_length b trivial hlen
  length_pos := hpos

/-- A record: its first field, and then the rest of it. -/
theorem Describes.record (π : β → α) {f : α → Reader β}
    (hf : ∀ a, Completes (f a) (fun b => True ∧ π b = a) fits w) :
    Describes (read >>= f) (fun b => Fits (π b) ∧ fits b)
      (fun b => toList (write (π b)) ++ w b) := by
  apply (Completes.field π hf).describes
  intro b
  have hpos := (Exact.describes (α := α)).length_pos (π b)
  rw [List.length_append]
  omega

/-- A record of one field. -/
theorem Describes.single (π : β → α) {g : α → β} (hg : ∀ a b, b = g a ↔ True ∧ π b = a) :
    Describes (read >>= fun a => pure (g a)) (fun b => Fits (π b))
      (fun b => toList (write (π b))) :=
  (Completes.last π hg).describes fun b => Exact.describes.length_pos (π b)

/-- A choice: the number of the alternative, and then what was chosen. -/
theorem Describes.choice {count : Nat} (hcount : count ≤ 256 ^ 4) (tag : β → Nat)
    (htag : ∀ b, tag b < count) {f : Nat → Reader β}
    (hf : ∀ n < count, Completes (f n) (fun b => tag b = n) fits w) :
    Describes (Record.alternative count >>= f) fits
      (fun b => littleEndianBytes 4 (tag b) ++ w b) where
  reads := by
    refine ((reads_alternative hcount).bind (Q := fun n b u => n < count ∧ tag b = n ∧ fits b ∧ u = w b)
      ?_).congr ?_
    · rintro n ⟨_, hn, -⟩
      exact (hf n hn).reads.congr (by simp [hn])
    · intro b u
      constructor
      · rintro ⟨n, _, _, ⟨-, rfl⟩, ⟨-, rfl, hfits, rfl⟩, rfl⟩
        exact ⟨hfits, rfl⟩
      · rintro ⟨hfits, rfl⟩
        exact ⟨tag b, _, _, ⟨htag b, rfl⟩, ⟨htag b, rfl, hfits, rfl⟩, rfl⟩
  fits_of_length := by
    intro b hlen
    rw [List.length_append] at hlen
    exact (hf (tag b) (htag b)).fits_of_length b rfl (by omega)
  length_pos := by
    intro b
    rw [List.length_append, length_littleEndianBytes]
    omega

end Parts

/-! ## Numbers, flags, texts -/

/-- A number of fixed width: `value` tells it, and `of` is the number of a value. -/
theorem describes_number {β : Type} {n : Nat} (hn : 0 < n) (of : Nat → β) (value : β → Nat)
    (hlt : ∀ b, value b < 256 ^ n) (hof : ∀ b, of (value b) = b)
    (hvalue : ∀ v < 256 ^ n, value (of v) = v) :
    Describes (number n >>= fun v => pure (of v)) (fun _ => True)
      fun b => littleEndianBytes n (value b) where
  reads := by
    refine ((reads_number n).bind fun v _ => Reads.pure (of v)).congr ?_
    intro b u
    constructor
    · rintro ⟨v, _, _, ⟨hv, rfl⟩, ⟨rfl, rfl⟩, rfl⟩
      exact ⟨trivial, by rw [hvalue v hv, List.append_nil]⟩
    · rintro ⟨-, rfl⟩
      exact ⟨value b, _, _, ⟨hlt b, rfl⟩, ⟨(hof b).symm, rfl⟩, (List.append_nil _).symm⟩
  fits_of_length := fun _ _ => trivial
  length_pos := by
    intro b
    rwa [length_littleEndianBytes]

instance : Sized UInt32 where
  Fits _ := True

instance : Sized UInt64 where
  Fits _ := True

instance : Sized Int32 where
  Fits _ := True

instance : Sized Int64 where
  Fits _ := True

instance : Sized Bool where
  Fits _ := True

instance : Sized String where
  Fits s := s.utf8ByteSize < 2 ^ 64

instance : Sized ByteArray where
  Fits b := b.size < 2 ^ 64

instance : Exact UInt32 where
  describes := (describes_number (by decide) Nat.toUInt32 UInt32.toNat (fun v => v.toNat_lt)
    (fun _ => UInt32.ofNat_toNat) (fun _ hv => UInt32.toNat_ofNat_of_lt hv)).congr
    (fun _ => Iff.rfl) fun v => (toList_writeNumber 4 v.toNat).symm

instance : Exact UInt64 where
  describes := (describes_number (by decide) Nat.toUInt64 UInt64.toNat (fun v => v.toNat_lt)
    (fun _ => UInt64.ofNat_toNat) (fun _ hv => UInt64.toNat_ofNat_of_lt hv)).congr
    (fun _ => Iff.rfl) fun v => (toList_writeNumber 8 v.toNat).symm

instance : Exact Int32 where
  describes := (describes_number (by decide) (fun n => n.toUInt32.toInt32) (fun v => v.toUInt32.toNat)
    (fun v => v.toUInt32.toNat_lt) (fun v => by simp) (fun v hv => by simpa using hv)).congr
    (fun _ => Iff.rfl) fun v => (toList_writeNumber 4 v.toUInt32.toNat).symm

instance : Exact Int64 where
  describes := (describes_number (by decide) (fun n => n.toUInt64.toInt64) (fun v => v.toUInt64.toNat)
    (fun v => v.toUInt64.toNat_lt) (fun v => by simp) (fun v hv => by simpa using hv)).congr
    (fun _ => Iff.rfl) fun v => (toList_writeNumber 8 v.toUInt64.toNat).symm

instance : Exact Bool where
  describes := by
    have hflag : ∀ n : UInt8, Reads
        (match n with
          | 0 => pure false
          | 1 => pure true
          | n => throw (Fault.flag n) : Reader Bool)
        fun v w => n = (if v then 1 else 0) ∧ w = [] := by
      intro n
      split
      · exact (Reads.pure false).congr fun v w => by cases v <;> simp
      · exact (Reads.pure true).congr fun v w => by cases v <;> simp
      · exact (Reads.throw _).congr fun v w => by cases v <;> simp_all
    refine ⟨(reads_byte.bind fun n _ => hflag n).congr ?_, fun _ _ => trivial, ?_⟩
    · intro v u
      constructor
      · rintro ⟨n, _, _, rfl, ⟨rfl, rfl⟩, rfl⟩
        exact ⟨trivial, rfl⟩
      · rintro ⟨-, rfl⟩
        exact ⟨_, _, _, rfl, ⟨rfl, rfl⟩, rfl⟩
    · intro v
      cases v <;> decide

/-- Bytes are read as the text that is written in them. -/
theorem utf8_decode_eq_ok_iff {b : ByteArray} {s : String} :
    Utf8.decode b = .ok s ↔ s.toUTF8 = b := by
  rw [Utf8.decode, String.fromUTF8?]
  by_cases hb : b.IsValidUTF8
  · rw [dif_pos hb]
    constructor
    · intro h
      cases h
      rfl
    · rintro rfl
      rfl
  · rw [dif_neg hb]
    constructor
    · intro h
      cases h
    · rintro rfl
      exact absurd s.isValidUTF8 hb

instance : Exact String where
  describes := by
    have htext : ∀ b : ByteArray, Reads
        (match Utf8.decode b with
          | .ok s => pure s
          | .error e => throw (Fault.text e) : Reader String)
        fun s w => s.toUTF8 = b ∧ w = [] := by
      intro b
      split
      · rename_i s hs
        exact (Reads.pure s).congr fun t w => by
          rw [← utf8_decode_eq_ok_iff, hs, Except.ok.injEq, eq_comm]
      · rename_i e he
        exact (Reads.throw _).congr fun t w => by
          rw [← utf8_decode_eq_ok_iff, he]
          simp
    have hwrite : ∀ s : String, toList (write s)
        = littleEndianBytes 8 s.toUTF8.size ++ toList s.toUTF8 := by
      intro s
      rw [show write s = writeNumber 8 s.utf8ByteSize ++ s.toUTF8 from rfl, toList_append,
        toList_writeNumber]
      rfl
    refine ⟨((reads_number 8).bind fun n _ => (reads_take n .textCutOff).bind fun b _ =>
      htext b).congr ?_, ?_, ?_⟩
    · intro s u
      rw [hwrite]
      constructor
      · rintro ⟨_, _, _, ⟨hn, rfl⟩, ⟨_, _, _, ⟨rfl, rfl⟩, ⟨rfl, rfl⟩, rfl⟩, rfl⟩
        exact ⟨hn, by rw [List.append_nil]⟩
      · rintro ⟨hs, rfl⟩
        exact ⟨_, _, _, ⟨hs, rfl⟩, ⟨_, _, _, ⟨rfl, rfl⟩, ⟨rfl, rfl⟩, rfl⟩,
          by rw [List.append_nil]; rfl⟩
    · intro s hlen
      rw [hwrite, List.length_append, length_toList] at hlen
      show s.toUTF8.size < 2 ^ 64
      omega
    · intro s
      rw [hwrite, List.length_append, length_littleEndianBytes]
      omega

instance : Exact ByteArray where
  describes := by
    have hwrite : ∀ b : ByteArray, toList (write b) = littleEndianBytes 8 b.size ++ toList b := by
      intro b
      rw [show write b = writeNumber 8 b.size ++ b from rfl, toList_append, toList_writeNumber]
    refine ⟨((reads_number 8).bind fun n _ => reads_take n .unexpectedEnd).congr ?_, ?_, ?_⟩
    · intro b u
      rw [hwrite]
      constructor
      · rintro ⟨n, _, _, ⟨hn, rfl⟩, ⟨rfl, rfl⟩, rfl⟩
        exact ⟨hn, rfl⟩
      · rintro ⟨hb, rfl⟩
        exact ⟨_, _, _, ⟨hb, rfl⟩, ⟨rfl, rfl⟩, rfl⟩
    · intro b hlen
      rw [hwrite, List.length_append, length_toList] at hlen
      show b.size < 2 ^ 64
      omega
    · intro b
      rw [hwrite, List.length_append, length_littleEndianBytes]
      omega

/-! ## Optional values and lists -/

section Containers

instance {α : Type} [Sized α] : Sized (Option α) where
  Fits o := ∀ a ∈ o, Fits a

instance {α : Type} [Sized α] : Sized (List α) where
  Fits l := l.length < 2 ^ 64 ∧ ∀ a ∈ l, Fits a

variable {α : Type} [Record α]

theorem toList_write_none : toList (write (none : Option α)) = [0] := toList_ofList _

theorem toList_write_some (a : α) : toList (write (some a)) = 1 :: toList (write a) := by
  rw [show write (some a) = ofList [1] ++ write a from rfl, toList_append, toList_ofList]
  rfl

theorem toList_write_list (l : List α) :
    toList (write l) = littleEndianBytes 8 l.length ++ l.flatMap fun a => toList (write a) := by
  have hfold : ∀ (l : List α) (b : ByteArray), toList (l.foldl (fun b v => b ++ write v) b)
      = toList b ++ l.flatMap fun a => toList (write a) := by
    intro l
    induction l with
    | nil =>
      intro b
      rw [List.foldl_nil, List.flatMap_nil, List.append_nil]
    | cons a r ih =>
      intro b
      rw [List.foldl_cons, ih, toList_append, List.flatMap_cons, List.append_assoc]
  rw [show write l = l.foldl (fun b v => b ++ write v) (writeNumber 8 l.length) from rfl, hfold,
    toList_writeNumber]

variable [Sized α] [Exact α]

instance : Exact (Option α) where
  describes := by
    have hvalue : ∀ n : UInt8, Reads
        (match n with
          | 0 => pure none
          | 1 => read >>= fun a => pure (some a)
          | n => throw (Fault.tag n) : Reader (Option α))
        fun o w => Fits o ∧ n :: w = toList (write o) := by
      intro n
      split
      · refine (Reads.pure none).congr ?_
        intro o w
        cases o <;> simp [toList_write_none, toList_write_some, Fits]
      · refine (Exact.describes.reads.bind fun a _ => Reads.pure (some a)).congr ?_
        intro o w
        cases o <;> simp [toList_write_none, toList_write_some, Fits]
      · refine (Reads.throw _).congr ?_
        intro o w
        cases o <;> simp_all [toList_write_none, toList_write_some]
    refine ⟨(reads_byte.bind fun n _ => hvalue n).congr ?_, ?_, ?_⟩
    · intro o u
      constructor
      · rintro ⟨n, _, _, rfl, ⟨hfits, hw⟩, rfl⟩
        exact ⟨hfits, hw⟩
      · rintro ⟨hfits, rfl⟩
        cases o with
        | none => exact ⟨0, _, [], rfl, ⟨hfits, toList_write_none.symm⟩, toList_write_none⟩
        | some a =>
          exact ⟨1, _, _, rfl, ⟨hfits, (toList_write_some a).symm⟩, toList_write_some a⟩
    · intro o hlen a ha
      obtain rfl := Option.mem_def.mp ha
      rw [toList_write_some, List.length_cons] at hlen
      exact Exact.describes.fits_of_length a (by omega)
    · intro o
      cases o with
      | none => rw [toList_write_none]; exact Nat.one_pos
      | some a => rw [toList_write_some]; exact Nat.succ_pos _

/-- As every value takes a byte, a list has at most as many values as bytes. -/
theorem length_le_flatMap (l : List α) :
    l.length ≤ (l.flatMap fun a => toList (write a)).length := by
  induction l with
  | nil => exact Nat.le_refl _
  | cons a r ih =>
    have hpos := (Exact.describes (α := α)).length_pos a
    rw [List.flatMap_cons, List.length_append, List.length_cons]
    omega

instance : Exact (List α) where
  describes := by
    refine ⟨((reads_number 8).bind fun n _ => reads_sequence Exact.describes.reads n).congr ?_,
      ?_, ?_⟩
    · intro l u
      rw [toList_write_list]
      constructor
      · rintro ⟨n, _, _, ⟨hn, rfl⟩, ⟨rfl, hfits, rfl⟩, rfl⟩
        exact ⟨⟨hn, hfits⟩, rfl⟩
      · rintro ⟨⟨hn, hfits⟩, rfl⟩
        exact ⟨_, _, _, ⟨hn, rfl⟩, ⟨rfl, hfits, rfl⟩, rfl⟩
    · intro l hlen
      rw [toList_write_list, List.length_append] at hlen
      have hcount := length_le_flatMap l
      refine ⟨by omega, ?_⟩
      intro a ha
      obtain ⟨front, back, rfl⟩ := List.append_of_mem ha
      simp only [List.flatMap_append, List.flatMap_cons, List.length_append] at hlen
      exact Exact.describes.fits_of_length a (by omega)
    · intro l
      rw [toList_write_list, List.length_append, length_littleEndianBytes]
      omega

end Containers

end Record

end SessionMux
