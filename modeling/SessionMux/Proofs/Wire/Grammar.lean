import SessionMux.Proofs.Wire.RoundTrip

/-!
# What envelopes and lines are accepted

Two laws say all there is to say of the way in. An envelope is opened as the message in whose bytes
its inner bytes begin, inflated if they are compressed; a line is read as the envelope in whose bytes
the bytes begin that it is the text of. Both follow from `Record.decode_eq_ok_iff`, and the second
from `Base64.decode_eq_ok_iff` as well. Everything else is read off them: what an answer does not
depend on, what is refused, and that nothing but bytes behind a value can be added to it.

* `plain_eq_ok_iff`, `unpack_eq_ok_iff`, `ofLine_eq_ok_iff` — the two layers of either way.
* `decode_ne_of_nonce`, `decode_ne_of_inner` — counts that say more than is left.
* **`opensExactly_messages`** — how messages of both directions are opened.
* **`lineGrammar`** — how lines are read.
-/

namespace SessionMux

open Octets Record

theorem exists_error_of_ne_ok {ε α : Type} {x : Except ε α} (h : ∀ a, x ≠ .ok a) :
    ∃ f, x = .error f := by
  cases x with
  | error f => exact ⟨f, rfl⟩
  | ok a => exact absurd rfl (h a)

/-! ## Opening envelopes -/

namespace Envelope

variable {α : Type} [Record α] {e : Envelope} {m : α}

/-- The inner bytes: as they are, or inflated. -/
theorem plain_eq_ok_iff {b : ByteArray} :
    e.plain = .ok b ↔ e.version = 0 ∧
      (e.compression = 0 ∧ e.inner = b ∨ e.compression = 1 ∧ Gzip.decode e.inner = .ok b) := by
  rw [plain]
  by_cases hversion : e.version = protocolVersion
  · rw [if_neg (not_not_intro hversion), Compression.ofCode?]
    rw [show e.version = 0 from hversion]
    by_cases hnone : e.compression = 0
    · simp [hnone]
    · by_cases hgzip : e.compression = 1
      · cases hdecode : Gzip.decode e.inner <;> simp [hgzip]
      · simp [hnone, hgzip]
  · rw [if_pos hversion]
    simp only [reduceCtorEq, false_iff]
    exact fun h => hversion h.1

theorem unpack_eq_ok_iff : e.unpack α = .ok m ↔ ∃ b, e.plain = .ok b ∧ decode α b = .ok m := by
  rw [unpack]
  cases e.plain with
  | error f => simp [bind, Except.bind]
  | ok b =>
    cases hdecode : decode α b <;> simp [bind, Except.bind, hdecode]

/-- The nonce is not looked at. -/
theorem unpack_nonce (α : Type) [Record α] (e : Envelope) (nonce : ByteArray) :
    ({ e with nonce } : Envelope).unpack α = e.unpack α := rfl

end Envelope

/-- How the messages of one type are opened. -/
structure OpensExactly (α : Type) [Record α] [Sized α] : Prop where
  /-- An envelope is opened as a message exactly if its version is spoken here and its inner bytes,
  inflated if they are compressed, begin with the bytes of the message. -/
  unpack_iff : ∀ (e : Envelope) (m : α), e.unpack α = .ok m ↔ Fits m ∧ e.version = 0 ∧
    (e.compression = 0 ∧ toList (write m) <+: toList e.inner ∨
      e.compression = 1 ∧ ∃ d, Gzip.decode e.inner = .ok d ∧ toList (write m) <+: toList d)
  /-- What an envelope is opened as does not depend on its nonce. -/
  nonce : ∀ (e : Envelope) (nonce : ByteArray),
    ({ e with nonce } : Envelope).unpack α = e.unpack α
  /-- The bytes of a message that are cut anywhere are opened as nothing. -/
  cut : ∀ (e : Envelope) (m : α) (b : ByteArray), Fits m → e.plain = .ok b →
    toList b <+: toList (write m) → b ≠ write m → ∃ f, e.unpack α = .error f
  /-- The bytes of no message begin with those of another. -/
  prefixFree : ∀ m m' : α, Fits m → Fits m' → toList (write m) <+: toList (write m') → m = m'
  /-- Bytes may stand behind a message, and nothing else may differ. -/
  behind : ∀ (e : Envelope) (m : α), e.unpack α = .ok m ↔
    Fits m ∧ ∃ rest, e.plain = .ok (write m ++ rest)

theorem opensExactly (α : Type) [Record α] [Sized α] [Exact α] : OpensExactly α where
  unpack_iff := by
    intro e m
    rw [Envelope.unpack_eq_ok_iff]
    simp only [Envelope.plain_eq_ok_iff, decode_eq_ok_iff]
    constructor
    · rintro ⟨b, ⟨hversion, ⟨hcode, rfl⟩ | ⟨hcode, hb⟩⟩, hfits, hm⟩
      · exact ⟨hfits, hversion, .inl ⟨hcode, hm⟩⟩
      · exact ⟨hfits, hversion, .inr ⟨hcode, b, hb, hm⟩⟩
    · rintro ⟨hfits, hversion, ⟨hcode, hm⟩ | ⟨hcode, b, hb, hm⟩⟩
      · exact ⟨_, ⟨hversion, .inl ⟨hcode, rfl⟩⟩, hfits, hm⟩
      · exact ⟨b, ⟨hversion, .inr ⟨hcode, hb⟩⟩, hfits, hm⟩
  nonce := Envelope.unpack_nonce α
  cut := by
    intro e m b hm hb hcut hne
    apply exists_error_of_ne_ok
    intro m' h
    obtain ⟨b', hb', hdecode⟩ := Envelope.unpack_eq_ok_iff.mp h
    obtain rfl := Except.ok.inj (hb.symm.trans hb')
    exact decode_ne_of_cut hm hcut hne hdecode
  prefixFree := fun _ _ => eq_of_write_prefix
  behind := fun _ _ => Envelope.unpack_eq_ok_iff.trans exists_decode_iff

/-- **The messages of both directions are opened exactly from their bytes.** -/
theorem opensExactly_messages : OpensExactly InboundMessage ∧ OpensExactly OutboundMessage :=
  ⟨opensExactly InboundMessage, opensExactly OutboundMessage⟩

/-! ## Reading lines -/

namespace Envelope

variable {line : ByteArray} {e : Envelope}

/-- The envelope stands in front of what the line is the text of. -/
theorem ofLine_eq_ok_iff :
    ofLine line = .ok e ↔ Fits e ∧ ∃ rest, Base64.decode line = .ok (write e ++ rest) := by
  have hlayers : ofLine line = .ok e ↔
      ∃ b, Base64.decode line = .ok b ∧ decode Envelope b = .ok e := by
    rw [ofLine]
    cases Base64.decode line with
    | error f => simp
    | ok b => cases hdecode : decode Envelope b <;> simp [hdecode]
  rw [hlayers, exists_decode_iff]

/-- What is no text of base64 is refused as such. -/
theorem ofLine_of_not_text (h : ∀ l, toList line ≠ Base64.text l) :
    ∃ f, ofLine line = .error (.line f) := by
  have hdecode : ∃ f, Base64.decode line = .error f := by
    apply exists_error_of_ne_ok
    intro b hb
    exact h _ (Base64.decode_eq_ok_iff.mp hb)
  obtain ⟨f, hf⟩ := hdecode
  refine ⟨f, ?_⟩
  rw [ofLine, hf]

/-- What is the text of bytes that are no envelope is refused as such. -/
theorem ofLine_of_not_record {b : ByteArray} (hb : Base64.decode line = .ok b)
    (h : ∀ e, decode Envelope b ≠ .ok e) : ∃ f, ofLine line = .error (.envelope f) := by
  obtain ⟨f, hf⟩ := exists_error_of_ne_ok h
  refine ⟨f, ?_⟩
  simp only [ofLine, hb, hf]

theorem toList_write (e : Envelope) : toList (write e) =
    toList (write e.version ++ write e.compression) ++ (littleEndianBytes 8 e.nonce.size ++
      (toList e.nonce ++ (littleEndianBytes 8 e.inner.size ++ toList e.inner))) := by
  have hbytes : ∀ b : ByteArray, toList (write b) = littleEndianBytes 8 b.size ++ toList b := by
    intro b
    rw [show write b = writeNumber 8 b.size ++ b from rfl, toList_append, toList_writeNumber]
  rw [show write e = write e.version ++ write e.compression ++ write e.nonce ++ write e.inner
    from rfl, toList_append, toList_append, hbytes, hbytes]
  simp only [List.append_assoc]

end Envelope

theorem append_prefix_append {a b c d : List UInt8} (hlen : a.length = c.length)
    (h : a ++ b <+: c ++ d) : a = c ∧ b <+: d := by
  obtain ⟨rest, hrest⟩ := h
  rw [List.append_assoc] at hrest
  obtain ⟨hac, hbd⟩ := List.append_inj hrest hlen
  exact ⟨hac, rest, hbd⟩

/-- A count is told by its eight bytes. -/
theorem eq_of_count {m n : Nat} (hm : m < 2 ^ 64) (hn : n < 2 ^ 64) {u l : List UInt8}
    (h : littleEndianBytes 8 m ++ u <+: littleEndianBytes 8 n ++ l) : m = n ∧ u <+: l := by
  obtain ⟨hnumber, hl⟩ := append_prefix_append
    (by rw [length_littleEndianBytes, length_littleEndianBytes]) h
  exact ⟨littleEndianBytes_inj hm hn hnumber, hl⟩

section Counts

variable {b : ByteArray} {front rest : List UInt8} {n : Nat}

/-- **A nonce that is said to be longer than what is left** is not decoded. -/
theorem decode_ne_of_nonce (hfront : front.length = 8) (hn : n < 2 ^ 64)
    (hb : toList b = front ++ (littleEndianBytes 8 n ++ rest)) (hrest : rest.length < n)
    (e : Envelope) : decode Envelope b ≠ .ok e := by
  intro h
  obtain ⟨⟨-, -, hnonce, -⟩, he⟩ := decode_eq_ok_iff.mp h
  rw [hb, Envelope.toList_write] at he
  obtain ⟨-, hcount⟩ := append_prefix_append (by rw [hfront]; rfl) he
  obtain ⟨rfl, hleft⟩ := eq_of_count hnonce hn hcount
  have hlen := hleft.length_le
  rw [List.length_append, length_toList] at hlen
  omega

/-- **Inner bytes that are said to be more than what is left** are not decoded. -/
theorem decode_ne_of_inner (hfront : front.length = 8) {nonce : List UInt8}
    (hnonce : nonce.length < 2 ^ 64) (hn : n < 2 ^ 64)
    (hb : toList b = front ++ (littleEndianBytes 8 nonce.length ++
      (nonce ++ (littleEndianBytes 8 n ++ rest)))) (hrest : rest.length < n) (e : Envelope) :
    decode Envelope b ≠ .ok e := by
  intro h
  obtain ⟨⟨-, -, hnonce', hinner⟩, he⟩ := decode_eq_ok_iff.mp h
  rw [hb, Envelope.toList_write] at he
  obtain ⟨-, hcount⟩ := append_prefix_append (by rw [hfront]; rfl) he
  obtain ⟨hsize, hbehind⟩ := eq_of_count hnonce' hnonce hcount
  obtain ⟨-, hcount'⟩ := append_prefix_append (by rw [length_toList, hsize]) hbehind
  obtain ⟨rfl, hleft⟩ := eq_of_count hinner hn hcount'
  have hlen := hleft.length_le
  rw [length_toList] at hlen
  omega

end Counts

/-- How a line is read, and an envelope written. -/
structure LineGrammar (line : ByteArray) (e : Envelope) : Prop where
  /-- The line is read as the envelope exactly if it is the base64 text of the bytes of the envelope
  and of any bytes behind them. -/
  accepted : Envelope.ofLine line = .ok e ↔
    Fits e ∧ ∃ rest, line = (Base64.encode (write e ++ rest)).toUTF8
  /-- If another line is read as the same envelope, then the bytes of both begin with those of the
  envelope. -/
  agree : ∀ line', Envelope.ofLine line = .ok e → Envelope.ofLine line' = .ok e →
    ∃ rest rest', Base64.decode line = .ok (write e ++ rest) ∧
      Base64.decode line' = .ok (write e ++ rest')
  /-- A byte outside the alphabet is refused. -/
  alphabet : ∀ c ∈ toList line, c ≠ Base64.pad → Base64.value? c = none →
    ∃ f, Envelope.ofLine line = .error (.line f)
  /-- A pad with another byte behind it is refused. -/
  padInside : ∀ front back, toList line = front ++ Base64.pad :: back →
    (∃ c ∈ back, c ≠ Base64.pad) → ∃ f, Envelope.ofLine line = .error (.line f)
  /-- Pads at the end are refused if they do not make whole groups, as too few do, or if they are
  more than two. -/
  padding : ∀ front n, toList line = front ++ List.replicate n Base64.pad →
    front.getLast? ≠ some Base64.pad → (front.length + n) % 4 ≠ 0 ∨ 2 < n →
    ∃ f, Envelope.ofLine line = .error (.line f)
  /-- Spare bits before the pads are refused if they are not zero. -/
  spareBits : ∀ front c v, Base64.value? c = some v →
    (toList line = front ++ [c, Base64.pad, Base64.pad] ∧ v &&& 15 ≠ 0 ∨
      toList line = front ++ [c, Base64.pad] ∧ v &&& 3 ≠ 0) →
    ∃ f, Envelope.ofLine line = .error (.line f)
  /-- An envelope that is cut anywhere is refused. -/
  cut : ∀ b, Base64.decode line = .ok b → Fits e → toList b <+: toList (write e) → b ≠ write e →
    ∃ f, Envelope.ofLine line = .error (.envelope f)
  /-- A nonce that is said to be longer than what is left is refused. -/
  nonceCount : ∀ b front n rest, Base64.decode line = .ok b → front.length = 8 → n < 2 ^ 64 →
    toList b = front ++ (littleEndianBytes 8 n ++ rest) → rest.length < n →
    ∃ f, Envelope.ofLine line = .error (.envelope f)
  /-- Inner bytes that are said to be more than what is left are refused. -/
  innerCount : ∀ b front nonce n rest, Base64.decode line = .ok b → front.length = 8 →
    nonce.length < 2 ^ 64 → n < 2 ^ 64 →
    toList b = front ++ (littleEndianBytes 8 nonce.length ++
      (nonce ++ (littleEndianBytes 8 n ++ rest))) → rest.length < n →
    ∃ f, Envelope.ofLine line = .error (.envelope f)
  /-- The line of the envelope is read as the envelope. -/
  readBack : Fits e → Envelope.ofLine e.toLine.toUTF8 = .ok e
  /-- An envelope whose line is within the limit is written, and an intake that is fed what was
  written, in any pieces, hands it out unchanged. -/
  framed : Fits e → ∀ limit policy chunks, e.toLine.utf8ByteSize ≤ limit →
    ∃ text, ({ limit } : Framer).encode e = .ok text ∧
      (chunks.flatMap toList = toList text.toUTF8 →
        ((Intake.fresh limit policy).feedAll chunks).1 = [e])

/-- **The grammar of lines.** -/
theorem lineGrammar (line : ByteArray) (e : Envelope) : LineGrammar line e := by
  have hshape : (∀ values pads, ¬ Base64.Padded (toList line) values pads) →
      ∃ f, Envelope.ofLine line = .error (.line f) := by
    intro hnot
    apply Envelope.ofLine_of_not_text
    intro l hl
    obtain ⟨values, pads, h⟩ := Base64.padded_text l
    rw [← hl] at h
    exact hnot values pads h
  constructor
  case accepted =>
    rw [Envelope.ofLine_eq_ok_iff]
    simp only [Base64.decode_eq_ok_iff_encode]
  case agree =>
    intro line' h h'
    obtain ⟨-, rest, hline⟩ := Envelope.ofLine_eq_ok_iff.mp h
    obtain ⟨-, rest', hline'⟩ := Envelope.ofLine_eq_ok_iff.mp h'
    exact ⟨rest, rest', hline, hline'⟩
  case alphabet =>
    intro c hc hne hvalue
    refine hshape fun values pads h => ?_
    rcases h.mem hc with rfl | hsome
    · exact hne rfl
    · rw [hvalue] at hsome
      cases hsome
  case padInside =>
    rintro front back hl ⟨c, hc, hne⟩
    exact hshape fun values pads h => hne (h.eq_pad hl hc)
  case padding =>
    intro front n hl hlast hwrong
    refine hshape fun values pads h => ?_
    have hwhole := h.whole_of_append hl hlast
    omega
  case spareBits =>
    rintro front c v hv (⟨hl, hspare⟩ | ⟨hl, hspare⟩)
    · refine hshape fun values pads h => ?_
      exact hspare ((h.spare_of_append (n := 2) hv (by simpa using hl)).1 rfl)
    · refine hshape fun values pads h => ?_
      exact hspare ((h.spare_of_append (n := 1) hv (by simpa using hl)).2 rfl)
  case cut =>
    intro b hb he hcut hne
    exact Envelope.ofLine_of_not_record hb fun _ => decode_ne_of_cut he hcut hne
  case nonceCount =>
    intro b front n rest hb hfront hn hl hrest
    exact Envelope.ofLine_of_not_record hb (decode_ne_of_nonce hfront hn hl hrest)
  case innerCount =>
    intro b front nonce n rest hb hfront hnonce hn hl hrest
    exact Envelope.ofLine_of_not_record hb (decode_ne_of_inner hfront hnonce hn hl hrest)
  case readBack => exact Envelope.ofLine_line
  case framed =>
    intro hfits limit policy chunks hlimit
    refine ⟨e.toLine.push '\n', if_neg (Nat.not_lt.mpr hlimit), ?_⟩
    intro hchunks
    have hjoined : chunks.flatMap toList = Lines.joined ([e].map Envelope.line) := by
      rw [hchunks, toList_push_lineFeed]
      simp [Lines.joined, Envelope.line]
    exact (Intake.feedAll_joined policy (by simpa using hfits)
      (fun x hx => (List.mem_singleton.mp hx).symm ▸ hlimit) hjoined).1

end SessionMux
