import SessionMux.Proofs.Base64.Canonical
import SessionMux.Proofs.Gzip
import SessionMux.Proofs.Gzip.Expansion
import SessionMux.Proofs.Record.Messages
import SessionMux.Proofs.Wire.Intake

/-!
# From messages to the wire and back

Messages are put into envelopes, the envelopes into lines, and the lines into one stream; an intake
that is fed the stream in any pieces hands out the envelopes, and opened they give the messages.
Four codecs lie on the way, and each is taken back by its own law: `Record.decode_write`,
`Gzip.decode_encode` or the law assumed of another gzip writer, `Record.decode_write` once more for
the envelope, and `Base64.decode_encode`. The framing adds that a line of base64 holds neither line
feed nor carriage return.

* `Message`, `Letter` — a message of either direction, and how it is sent.
* `unpack_packWith` — an envelope gives its message back.
* `envelope?_line` — a line gives its envelope back.
* `within_joined` — a stream of such lines is cut into these lines.
* **`feedAll_joined`** — an intake reads it as the envelopes, and nothing is left over.
* **`Letter.read_back`** — the round trip as a whole.
-/

namespace SessionMux

open Octets

/-! ## Letters -/

/-- Which way a message goes. -/
inductive Direction where
  | inbound
  | outbound
deriving DecidableEq

/-- A message of either direction. -/
inductive Message where
  | inbound (m : InboundMessage)
  | outbound (m : OutboundMessage)
deriving DecidableEq

namespace Message

/-- Which way a message goes. -/
def direction : Message → Direction
  | inbound _ => .inbound
  | outbound _ => .outbound

/-- The bytes of a message. -/
def bytes : Message → ByteArray
  | inbound m => Record.write m
  | outbound m => Record.write m

end Message

/-- Opens an envelope as the side does that messages of this direction come to. -/
def Direction.unpack : Direction → Envelope → Except WireFault Message
  | .inbound, e => Message.inbound <$> e.unpack InboundMessage
  | .outbound, e => Message.outbound <$> e.unpack OutboundMessage

/-- A message and how it is sent. -/
structure Letter where
  message : Message
  compression : Compression
  nonce : ByteArray

/-- The envelope of a letter. -/
def Letter.envelope (gzip : ByteArray → ByteArray) (l : Letter) : Envelope :=
  match l.message with
  | .inbound m => .packWith gzip l.compression l.nonce m
  | .outbound m => .packWith gzip l.compression l.nonce m

/-! ## Envelopes -/

namespace Envelope

theorem plain_packWith {gzip : ByteArray → ByteArray} (hgzip : ∀ b, Gzip.decode (gzip b) = .ok b)
    {α : Type} [Record α] (c : Compression) (nonce : ByteArray) (m : α) :
    (packWith gzip c nonce m).plain = .ok (Record.write m) := by
  cases c with
  | none => rfl
  | gzip =>
    have hversion : ¬ (packWith gzip .gzip nonce m).version ≠ protocolVersion := not_not_intro rfl
    have hcode : Compression.ofCode? (packWith gzip .gzip nonce m).compression = some .gzip := rfl
    have hinner : Gzip.decode (packWith gzip .gzip nonce m).inner = .ok (Record.write m) := hgzip _
    simp only [plain, if_neg hversion, hcode, hinner]

/-- **An envelope gives its message back.** -/
theorem unpack_packWith {gzip : ByteArray → ByteArray} (hgzip : ∀ b, Gzip.decode (gzip b) = .ok b)
    {α : Type} [Record α] [Record.Sized α] [Record.Exact α] (c : Compression) (nonce : ByteArray)
    (m : α) (hm : Record.Fits m) : (packWith gzip c nonce m).unpack α = .ok m := by
  simp only [unpack, plain_packWith hgzip, bind, Except.bind, Record.decode_write hm]

theorem size_inner_le (e : Envelope) : e.inner.size ≤ (Record.write e).size := by
  show e.inner.size ≤
    (_ ++ (Record.writeNumber 8 e.inner.size ++ e.inner) : ByteArray).size
  rw [ByteArray.size_append, ByteArray.size_append (a := Record.writeNumber 8 e.inner.size)]
  omega

/-- The bytes of the line of an envelope. -/
def line (e : Envelope) : List UInt8 := toList e.toLine.toUTF8

theorem line_eq (e : Envelope) : e.line = Base64.text (toList (Record.write e)) :=
  Base64.toList_encode _

theorem size_le_line (e : Envelope) : (Record.write e).size ≤ e.line.length := by
  rw [line_eq, Base64.length_text, length_toList]
  omega

end Envelope

/-! ## Lines -/

namespace Envelope

theorem ge_of_mem_line {e : Envelope} {c : UInt8} (h : c ∈ e.line) : 43 ≤ c := by
  rw [line_eq] at h
  exact (Base64.bounds_of_mem_text h).1

theorem lineFeed_notMem_line (e : Envelope) : lineFeed ∉ e.line := by
  intro h
  exact absurd (ge_of_mem_line h) (by decide)

theorem withoutReturn_line (e : Envelope) : Lines.withoutReturn e.line = e.line := by
  rw [Lines.withoutReturn, if_neg]
  intro h
  exact absurd (ge_of_mem_line (List.mem_of_getLast? h)) (by decide)

/-- An envelope fits if its line is short of `2 ^ 64` bytes. -/
theorem fits_of_line {e : Envelope} (h : e.line.length < 2 ^ 64) : Record.Fits e :=
  Record.fits_of_size e (Nat.lt_of_le_of_lt e.size_le_line h)

theorem fits_of_lines {limit : Nat} (hlimit : limit < 2 ^ 64) {es : List Envelope}
    (h : ∀ e ∈ es, e.line.length ≤ limit) : ∀ e ∈ es, Record.Fits e :=
  fun e he => fits_of_line (Nat.lt_of_le_of_lt (h e he) hlimit)

theorem ofLine_line {e : Envelope} (h : Record.Fits e) : ofLine (ofList e.line) = .ok e := by
  have hbytes : Base64.decode (ofList e.line) = .ok (Record.write e) := Base64.decode_encode _
  simp only [ofLine, hbytes, Record.decode_write h]

/-- **A line gives its envelope back.** -/
theorem envelope?_line {e : Envelope} (h : Record.Fits e) : Lines.envelope? e.line = some e := by
  rw [Lines.envelope?, withoutReturn_line, ofLine_line h]
  rfl

theorem filterMap_envelope? {es : List Envelope} (h : ∀ e ∈ es, Record.Fits e) :
    (es.map line).filterMap Lines.envelope? = es := by
  induction es with
  | nil => rfl
  | cons e es ih =>
    have he := envelope?_line (h e List.mem_cons_self)
    rw [List.map_cons, List.filterMap_cons_some he, ih fun x hx => h x (List.mem_cons_of_mem _ hx)]

end Envelope

namespace Lines

/-- Lines with their line feeds. -/
def joined (lines : List (List UInt8)) : List UInt8 := lines.flatMap (· ++ [lineFeed])

theorem joined_cons (line : List UInt8) (lines : List (List UInt8)) :
    joined (line :: lines) = line ++ lineFeed :: joined lines := by
  rw [joined, List.flatMap_cons, List.append_assoc]
  rfl

/-- **A stream of lines is cut into these lines**, and nothing is unfinished. -/
theorem within_joined {limit : Nat} {lines : List (List UInt8)}
    (h : ∀ line ∈ lines, lineFeed ∉ line ∧ line.length ≤ limit) :
    within limit (joined lines) = lines ∧ unfinished (joined lines) = [] := by
  induction lines with
  | nil => exact ⟨within_of_notMem limit (List.not_mem_nil), rfl⟩
  | cons line lines ih =>
    obtain ⟨hline, hl⟩ := h line List.mem_cons_self
    obtain ⟨hwithin, hend⟩ := ih fun x hx => h x (List.mem_cons_of_mem _ hx)
    rw [joined_cons, within_line hline hl, unfinished_line hline, hwithin, hend]
    exact ⟨rfl, rfl⟩

end Lines

/-! ## The whole way -/

namespace Framer

/-- Lines within the limit are written as they are, each with its line feed. -/
theorem mapM_encode {f : Framer} {es : List Envelope}
    (h : ∀ e ∈ es, e.toLine.utf8ByteSize ≤ f.limit) :
    es.mapM f.encode = .ok (es.map fun e => e.toLine.push '\n') := by
  induction es with
  | nil => rfl
  | cons e es ih =>
    have hline : f.encode e = .ok (e.toLine.push '\n') := by
      have hfit := h e List.mem_cons_self
      rw [encode]
      exact if_neg (by omega)
    rw [List.mapM_cons, hline, ih fun x hx => h x (List.mem_cons_of_mem _ hx)]
    rfl

end Framer

theorem toList_push_lineFeed (s : String) :
    toList (s.push '\n').toUTF8 = toList s.toUTF8 ++ [lineFeed] := toList_push s '\n'

namespace Intake

/-- **Lines of envelopes are read as these envelopes**, wherever their stream is cut, and nothing is
left over. -/
theorem feedAll_joined {limit : Nat} (policy : MalformedLines) {es : List Envelope}
    (hfits : ∀ e ∈ es, Record.Fits e) (hshort : ∀ e ∈ es, e.line.length ≤ limit)
    {chunks : List ByteArray}
    (hchunks : chunks.flatMap toList = Lines.joined (es.map Envelope.line)) :
    let read := (fresh limit policy).feedAll chunks
    read.1 = es ∧ read.2.buffer.toList = [] ∧ read.2.stalled = false := by
  intro read
  have hlines : ∀ line ∈ es.map Envelope.line, lineFeed ∉ line ∧ line.length ≤ limit := by
    intro line hline
    obtain ⟨e, he, rfl⟩ := List.mem_map.mp hline
    exact ⟨e.lineFeed_notMem_line, hshort e he⟩
  obtain ⟨hwithin, hend⟩ := Lines.within_joined hlines
  have henvelopes : Lines.envelopes limit (chunks.flatMap toList) = es := by
    rw [hchunks, Lines.envelopes, hwithin]
    exact Envelope.filterMap_envelope? hfits
  have hflows : Lines.Flows policy limit ([] ++ chunks.flatMap toList) := by
    intro _ line hline
    rw [List.nil_append, hchunks, hwithin] at hline
    obtain ⟨e, he, rfl⟩ := List.mem_map.mp hline
    rw [Envelope.envelope?_line (hfits e he)]
    rfl
  obtain ⟨taken, r, hread, henv, h⟩ := feedAll_holds chunks (holds_fresh limit policy) hflows
  rw [List.nil_append] at henv h
  have htaken : taken = es := henv.symm.trans henvelopes
  have hr : read = (es, r) := by
    rw [← htaken]
    exact hread
  rw [hr]
  refine ⟨rfl, ?_, h.going⟩
  rw [h.bytes, hchunks, hend]
  rfl

end Intake

/-- Lines as they are written are lines that are joined. -/
theorem flatMap_written (es : List Envelope) :
    (es.map fun e => e.toLine.push '\n').flatMap (fun text => toList text.toUTF8) =
      Lines.joined (es.map Envelope.line) := by
  have hline : (fun e : Envelope => toList (e.toLine.push '\n').toUTF8)
      = fun e => e.line ++ [lineFeed] := funext fun e => toList_push_lineFeed e.toLine
  rw [Lines.joined, List.flatMap_map, List.flatMap_map, hline]

namespace Letter

variable {gzip : ByteArray → ByteArray}

/-- A letter opened where it is meant to go. -/
theorem unpack_envelope (hgzip : ∀ b, Gzip.decode (gzip b) = .ok b) (l : Letter)
    (h : l.message.bytes.size < 2 ^ 64) :
    l.message.direction.unpack (l.envelope gzip) = .ok l.message := by
  obtain ⟨message, compression, nonce⟩ := l
  cases message with
  | inbound m =>
    show Message.inbound <$> (Envelope.packWith gzip compression nonce m).unpack InboundMessage = _
    rw [Envelope.unpack_packWith hgzip compression nonce m (Record.fits_of_size m h)]
    rfl
  | outbound m =>
    show Message.outbound <$> (Envelope.packWith gzip compression nonce m).unpack OutboundMessage = _
    rw [Envelope.unpack_packWith hgzip compression nonce m (Record.fits_of_size m h)]
    rfl

/-- The line bounds the message: it lies in it as it is, or as a member that expands so far only. -/
theorem size_bytes_le (hgzip : ∀ b, Gzip.decode (gzip b) = .ok b) (l : Letter) :
    l.message.bytes.size ≤ 2064 * (l.envelope gzip).line.length := by
  have hinner := Envelope.size_inner_le (l.envelope gzip)
  have hline := Envelope.size_le_line (l.envelope gzip)
  have hbytes : l.message.bytes.size ≤ 2064 * (l.envelope gzip).inner.size := by
    obtain ⟨message, compression, nonce⟩ := l
    cases compression with
    | none =>
      have heq : (envelope gzip ⟨message, .none, nonce⟩).inner = message.bytes := by
        cases message <;> rfl
      rw [heq]
      show message.bytes.size ≤ _
      omega
    | gzip =>
      have heq : (envelope gzip ⟨message, .gzip, nonce⟩).inner = gzip message.bytes := by
        cases message <;> rfl
      rw [heq]
      exact Gzip.size_decode_le (hgzip message.bytes)
  omega

/-- **Letters are read back.** Whatever the messages, their compression and their nonces: if every
line is within the limit, then the letters can be written, and an intake of either policy that is fed
their lines in any pieces hands out their envelopes in order, keeps nothing, has not stalled, and the
envelopes opened are the messages. -/
theorem read_back (gzip : ByteArray → ByteArray) (hgzip : ∀ b, Gzip.decode (gzip b) = .ok b)
    (letters : List Letter)
    (hfit : ∀ l ∈ letters, (l.envelope gzip).toLine.utf8ByteSize ≤ defaultLineLimit) :
    ∃ lines : List String,
      (letters.map (envelope gzip)).mapM ({} : Framer).encode = .ok lines ∧
      ∀ (policy : MalformedLines) (chunks : List ByteArray),
        chunks.flatMap toList = lines.flatMap (fun line => toList line.toUTF8) →
        let read := (Intake.fresh defaultLineLimit policy).feedAll chunks
        read.1 = letters.map (envelope gzip) ∧
          read.2.buffer.toList = [] ∧ read.2.stalled = false ∧
          List.zipWith Direction.unpack (letters.map (·.message.direction)) read.1
            = letters.map fun l => .ok l.message := by
  have hfit' : ∀ e ∈ letters.map (envelope gzip), e.toLine.utf8ByteSize ≤ defaultLineLimit := by
    intro e he
    obtain ⟨l, hl, rfl⟩ := List.mem_map.mp he
    exact hfit l hl
  refine ⟨_, Framer.mapM_encode hfit', ?_⟩
  intro policy chunks hchunks read
  rw [flatMap_written] at hchunks
  obtain ⟨henvelopes, hempty, hgoing⟩ :=
    Intake.feedAll_joined policy (Envelope.fits_of_lines (by decide) hfit') hfit' hchunks
  refine ⟨henvelopes, hempty, hgoing, ?_⟩
  rw [show read.1 = letters.map (envelope gzip) from henvelopes, List.zipWith_map,
    List.zipWith_self]
  refine List.map_congr_left fun l hl => unpack_envelope hgzip l ?_
  have hle : (l.envelope gzip).line.length ≤ 16777216 := hfit l hl
  have hbytes := size_bytes_le hgzip l
  omega

/-- A ping that is compressed and a pong that is not, by the writer of members here. -/
theorem read_back_pingPong :
    let ping : Letter :=
      { message := .outbound ⟨⟨1⟩, none, .ping⟩, compression := .gzip, nonce := ByteArray.empty }
    let pong : Letter :=
      { message := .inbound ⟨none, some ⟨1⟩, .pong⟩, compression := .none,
        nonce := Nonce.zero.bytes }
    ∃ lines : List String,
      ([ping, pong].map (envelope Gzip.encode)).mapM ({} : Framer).encode = .ok lines ∧
      ∀ (policy : MalformedLines) (chunks : List ByteArray),
        chunks.flatMap toList = lines.flatMap (fun line => toList line.toUTF8) →
        let read := (Intake.fresh defaultLineLimit policy).feedAll chunks
        read.1 = [ping, pong].map (envelope Gzip.encode) ∧
          read.2.buffer.toList = [] ∧ read.2.stalled = false ∧
          List.zipWith Direction.unpack [.outbound, .inbound] read.1
            = [.ok ping.message, .ok pong.message] := by
  intro ping pong
  exact read_back Gzip.encode Gzip.decode_encode [ping, pong] (by decide +kernel)

end Letter

end SessionMux
