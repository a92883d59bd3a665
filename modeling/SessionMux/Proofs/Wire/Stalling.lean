import Mathlib.Data.List.Forall2
import Mathlib.Data.List.Induction
import Mathlib.Data.List.TakeWhile
import SessionMux.Proofs.Octets
import SessionMux.Proofs.Wire.Intake

/-!
# Reading until a line stalls the intake

Under the policy `stall` a stream is read as under `skip`, up to its first complete line within the
limit that is no envelope. Lines above the limit are dropped here too, and stall nothing. The line
that stalls the intake stays at the front of the buffer for good, with all that came in the same
chunk; of what comes later as much is kept behind it as there is room for.

The invariant is `Stands`: after the stream `s` the intake holds what `Intake.Holds` says, as long as
no line of `s` stalls it, and is `Stuck` on the first line that does. Draining a buffer is followed
by induction on the lines in it, as in the case where every line flows; feeding keeps the invariant
on either side of the stall and where the one side goes over into the other.

* `Lines.malformed?`, `Lines.before` — the line that stalls an intake, and the envelopes before it.
* `drain_stalls`, `drain_dropping_stalls` — the drain in which the intake stalls.
* `stands_feed`, `stands_feedAll` — a feed keeps the invariant, and so does a run of feeds.
* **`feedAll_stall`** — what has been handed out and whether the intake has stalled are functions of
  the stream, and a stalled intake only ever lengthens its buffer.
* **`size_feedAll_stall`** — how much a stalled intake buffers: above the limit is only what the chunk
  that stalled it has brought. `not_size_le_limit` is such a chunk.
-/

namespace SessionMux

open Octets

/-! ## The line that stalls an intake -/

namespace Lines

/-- The first complete line within the limit that is no envelope. -/
def malformed? (limit : Nat) (s : List UInt8) : Option (List UInt8) :=
  (within limit s).find? fun line => (envelope? line).isNone

/-- The envelopes of the complete lines within the limit that stand before the first one that is no
envelope, in order; all of them, if there is no such line. -/
def before (limit : Nat) (s : List UInt8) : List Envelope :=
  ((within limit s).takeWhile fun line => (envelope? line).isSome).filterMap envelope?

section Malformed

variable {limit : Nat} {s line : List UInt8}

theorem malformed?_of_notMem (limit : Nat) (h : lineFeed ∉ s) : malformed? limit s = none := by
  rw [malformed?, within_of_notMem limit h, List.find?_nil]

/-- A line above the limit is passed over. -/
theorem malformed?_long (h : lineFeed ∉ line) (hl : limit < line.length) (rest : List UInt8) :
    malformed? limit (line ++ lineFeed :: rest) = malformed? limit rest := by
  rw [malformed?, within_long h hl]
  rfl

theorem malformed?_line (h : lineFeed ∉ line) (hl : line.length ≤ limit) (rest : List UInt8) :
    malformed? limit (line ++ lineFeed :: rest)
      = if (envelope? line).isSome then malformed? limit rest else some line := by
  rw [malformed?, within_line h hl, List.find?_cons]
  cases envelope? line <;> rfl

theorem before_long (h : lineFeed ∉ line) (hl : limit < line.length) (rest : List UInt8) :
    before limit (line ++ lineFeed :: rest) = before limit rest := by
  rw [before, within_long h hl]
  rfl

theorem before_line (h : lineFeed ∉ line) (hl : line.length ≤ limit) (rest : List UInt8) :
    before limit (line ++ lineFeed :: rest)
      = match envelope? line with
        | some e => e :: before limit rest
        | none => [] := by
  rw [before, within_line h hl, List.takeWhile_cons]
  cases he : envelope? line with
  | some e => simp [he, before]
  | none => simp

/-- A stream that stalls nothing flows, and the other way round. -/
theorem malformed?_eq_none_iff : malformed? limit s = none ↔ Flows .stall limit s := by
  simp [malformed?, Flows, Option.isSome_iff_ne_none]

/-- Where there is no malformed line, all envelopes stand before it. -/
theorem before_of_flows (h : Flows .stall limit s) : before limit s = envelopes limit s := by
  rw [before, envelopes, List.takeWhile_eq_self_iff.mpr (h rfl)]

/-- The first malformed line is looked for in what comes behind only if there was none before. -/
theorem malformed?_append (limit : Nat) (s t : List UInt8) :
    malformed? limit (s ++ t)
      = (malformed? limit s).or (malformed? limit (unfinished s ++ t)) := by
  rw [malformed?, within_append, List.find?_append]
  rfl

theorem before_append_of_flows (h : Flows .stall limit s) (t : List UInt8) :
    before limit (s ++ t) = before limit s ++ before limit (unfinished s ++ t) := by
  rw [before_of_flows h, before, within_append, List.takeWhile_append_of_pos (h rfl),
    List.filterMap_append]
  rfl

/-- What comes behind a malformed line adds nothing. -/
theorem before_append_of_malformed {bad : List UInt8} (h : malformed? limit s = some bad)
    (t : List UInt8) : before limit (s ++ t) = before limit s := by
  obtain ⟨hbad, front, back, hsplit, hfront⟩ := List.find?_eq_some_iff_append.mp h
  have htake : ∀ more : List (List UInt8),
      (front ++ bad :: more).takeWhile (fun line => (envelope? line).isSome) = front := by
    intro more
    rw [List.takeWhile_append_of_pos]
    · simp_all
    · intro x hx
      simpa [Option.isSome_iff_ne_none] using hfront x hx
  rw [before, before, within_append, hsplit, List.append_assoc, List.cons_append, htake, htake]

end Malformed

end Lines

open Lines

/-- A line that is no envelope is a malformed line. -/
theorem Envelope.isMalformedLine_of_ofLine {line : ByteArray} {f : WireFault}
    (h : ofLine line = .error f) : f.isMalformedLine = true := by
  unfold ofLine at h
  split at h
  · cases h
    rfl
  · split at h <;> cases h
    rfl

namespace Intake

/-! ## A stalled intake -/

/-- An intake that has stalled on the line `bad`. -/
structure Stuck (limit : Nat) (bad : List UInt8) (r : Intake) : Prop where
  limit_eq : r.framer.limit = limit
  stalled : r.stalled = true
  front : bad ++ [lineFeed] <+: r.buffer.toList

section StuckIntakes

variable {limit : Nat} {bad : List UInt8} {r : Intake}

/-- **A chunk that comes to a stalled intake** brings nothing out; as much of it is kept as there is
room for. -/
theorem Stuck.feed (h : r.Stuck limit bad) (chunk : ByteArray) :
    ∃ r' kept, Stuck limit bad r' ∧ r.feed chunk = ([], r') ∧ kept <+: toList chunk ∧
      r'.buffer.toList = r.buffer.toList ++ kept ∧
      r'.buffer.size = max r.buffer.size (min limit (r.buffer.size + chunk.size)) := by
  have hextract : toList (chunk.extract 0 (limit - r.buffer.size))
      = (toList chunk).take (limit - r.buffer.size) := by
    have hcut := toList_extract chunk 0 (limit - r.buffer.size)
    rwa [Nat.zero_add, List.drop_zero] at hcut
  have hbytes : (r.buffer.append (chunk.extract 0 (limit - r.buffer.size))).toList
      = r.buffer.toList ++ (toList chunk).take (limit - r.buffer.size) := by
    rw [Buffer.toList_append, hextract]
  refine ⟨{ r with buffer := r.buffer.append (chunk.extract 0 (limit - r.buffer.size)) }, _,
    ⟨h.limit_eq, h.stalled, ?_⟩, ?_, List.take_prefix (limit - r.buffer.size) _, hbytes, ?_⟩
  · exact h.front.trans (by rw [hbytes]; exact List.prefix_append _ _)
  · simp only [Intake.feed, h.stalled, h.limit_eq, if_true]
  · rw [← Buffer.length_toList, hbytes, List.length_append, List.length_take, Buffer.length_toList,
      length_toList]
    omega

/-- **Whatever comes to a stalled intake**, nothing is handed out, and the buffer grows by the
beginning of each chunk. -/
theorem Stuck.feedAll (h : r.Stuck limit bad) (more : List ByteArray) :
    ∃ r' kept, Stuck limit bad r' ∧ r.feedAll more = ([], r') ∧
      List.Forall₂ (fun k chunk => k <+: toList chunk) kept more ∧
      r'.buffer.toList = r.buffer.toList ++ kept.flatten := by
  induction more generalizing r with
  | nil => exact ⟨r, [], h, rfl, .nil, by simp⟩
  | cons chunk more ih =>
    obtain ⟨r₁, k, h₁, e₁, hk, hbytes₁, -⟩ := h.feed chunk
    obtain ⟨r₂, ks, h₂, e₂, hks, hbytes₂⟩ := ih h₁
    refine ⟨r₂, k :: ks, h₂, ?_, .cons hk hks, ?_⟩
    · simp only [Intake.feedAll, e₁, e₂, List.append_nil]
    · rw [hbytes₂, hbytes₁, List.flatten_cons, List.append_assoc]

end StuckIntakes

/-! ## The drain in which an intake stalls -/

section Drains

variable {limit : Nat} {line rest l bad : List UInt8} {r : Intake}

/-- A line that is no envelope stalls the intake, and everything stays in the buffer. -/
theorem drain_stall (h : r.Loaded limit .stall false (line ++ lineFeed :: rest))
    (hline : lineFeed ∉ line) (hl : line.length ≤ limit) (he : envelope? line = none)
    (taken : List Envelope) :
    ∃ r', Stuck limit line r' ∧ r'.buffer = r.buffer ∧ r.drain taken = (taken.reverse, r') := by
  obtain ⟨f, hf⟩ := exists_fault he
  have hmalformed := Envelope.isMalformedLine_of_ofLine hf
  have hdec := Framer.decode_line h.sound h.dropping_eq h.bytes hline (h.limit_eq ▸ hl)
  rw [hf, h.policy_eq] at hdec
  refine ⟨{ r with framer := { r.framer with scanned := 0 }, stalled := true },
    ⟨h.limit_eq, rfl, ?_⟩, rfl, ?_⟩
  · rw [h.bytes]
    exact ⟨rest, by simp⟩
  · rw [drain_eq, hdec]
    cases f with
    | line fault => simp [WireFault.isMalformedLine, h.policy_eq]
    | envelope fault => simp [WireFault.isMalformedLine, h.policy_eq]
    | _ => cases hmalformed

/-- **Draining up to the line that stalls the intake** hands out the envelopes before it, and leaves
it with all that comes behind it. -/
theorem drain_stalls (h : r.Loaded limit .stall false l) (hbad : malformed? limit l = some bad)
    (taken : List Envelope) :
    ∃ r', Stuck limit bad r' ∧ r'.buffer.size ≤ l.length ∧
      r.drain taken = (taken.reverse ++ before limit l, r') := by
  induction l using stream_induction generalizing r taken with
  | unfinished l hl =>
    rw [malformed?_of_notMem limit hl] at hbad
    cases hbad
  | line line rest hline ih =>
    have hshorter : rest.length ≤ (line ++ lineFeed :: rest).length := by
      rw [List.length_append, List.length_cons]
      omega
    by_cases hlong : limit < line.length
    · rw [malformed?_long hline hlong] at hbad
      obtain ⟨r₁, h₁, e₁⟩ := drain_long h hline hlong taken
      obtain ⟨r₂, h₂, hsize, e₂⟩ := ih h₁ hbad taken
      rw [before_long hline hlong]
      exact ⟨r₂, h₂, hsize.trans hshorter, e₁.trans e₂⟩
    · have hl : line.length ≤ limit := by omega
      rw [malformed?_line hline hl] at hbad
      rw [before_line hline hl]
      cases he : envelope? line with
      | some e =>
        rw [he, if_pos Option.isSome_some] at hbad
        obtain ⟨r₁, h₁, e₁⟩ := drain_line h hline hl he taken
        obtain ⟨r₂, h₂, hsize, e₂⟩ := ih h₁ hbad (e :: taken)
        refine ⟨r₂, h₂, hsize.trans hshorter, ?_⟩
        rw [e₁, e₂, List.reverse_cons, List.append_assoc]
        rfl
      | none =>
        rw [he, if_neg (by simp)] at hbad
        obtain rfl := Option.some.inj hbad
        obtain ⟨r₁, h₁, hbuffer, e₁⟩ := drain_stall h hline hl he taken
        refine ⟨r₁, h₁, ?_, by rw [e₁, List.append_nil]⟩
        rw [hbuffer, ← Buffer.length_toList, h.bytes]

/-- **The same while a line is being dropped**: `p` is what has been dropped of it. -/
theorem drain_dropping_stalls (h : r.Loaded limit .stall true l) {p : List UInt8}
    (hp : lineFeed ∉ p) (hlong : limit < p.length) (hbad : malformed? limit (p ++ l) = some bad)
    (taken : List Envelope) :
    ∃ r', Stuck limit bad r' ∧ r'.buffer.size ≤ l.length ∧
      r.drain taken = (taken.reverse ++ before limit (p ++ l), r') := by
  by_cases hl : lineFeed ∈ l
  · obtain ⟨line, rest, hline, rfl, hpline, hlonger⟩ := exists_longer_line hp hlong hl
    rw [← List.append_assoc] at hbad ⊢
    rw [malformed?_long hpline hlonger] at hbad
    obtain ⟨r₁, h₁, e₁⟩ := drain_dropping_line h hline taken
    obtain ⟨r₂, h₂, hsize, e₂⟩ := drain_stalls h₁ hbad taken
    refine ⟨r₂, h₂, ?_, by rw [before_long hpline hlonger, e₁, e₂]⟩
    rw [List.length_append, List.length_cons]
    omega
  · rw [malformed?_of_notMem limit (List.not_mem_append hp hl)] at hbad
    cases hbad

end Drains

/-! ## Feeding -/

section Feeds

variable {limit : Nat} {s bad : List UInt8} {r : Intake}

/-- **The feed that stalls the intake** hands out the envelopes before the line that stalls it. -/
theorem feed_stalls (h : r.Holds limit .stall s) (chunk : ByteArray)
    (hbad : malformed? limit (unfinished s ++ toList chunk) = some bad) :
    ∃ r', Stuck limit bad r' ∧ r'.buffer.size ≤ r.buffer.size + chunk.size ∧
      r.feed chunk = (before limit (unfinished s ++ toList chunk), r') := by
  have hfeed : r.feed chunk = { r with buffer := r.buffer.append chunk }.drain [] := by
    rw [Intake.feed, h.going, if_neg Bool.false_ne_true]
  by_cases hlong : limit < (unfinished s).length
  · rw [Holds, if_pos hlong] at h
    obtain ⟨r', h', hsize, e⟩ :=
      drain_dropping_stalls (h.append chunk) (notMem_unfinished s) hlong hbad []
    refine ⟨r', h', ?_, hfeed.trans e⟩
    rw [List.nil_append, length_toList] at hsize
    omega
  · rw [Holds, if_neg hlong] at h
    obtain ⟨r', h', hsize, e⟩ := drain_stalls (h.append chunk) hbad []
    refine ⟨r', h', ?_, hfeed.trans e⟩
    rwa [List.length_append, length_toList, ← h.bytes, Buffer.length_toList] at hsize

/-- **The invariant of reading under the policy `stall`**: where an intake is that has taken in the
stream `s`. -/
def Stands (limit : Nat) (s : List UInt8) (r : Intake) : Prop :=
  match malformed? limit s with
  | none => r.Holds limit .stall s
  | some bad => r.Stuck limit bad

/-- An intake that goes on reads as if no line could stall it. -/
theorem Stands.holds (h : r.Stands limit s) (hgoing : r.stalled = false) :
    malformed? limit s = none ∧ r.Holds limit .stall s := by
  rw [Stands] at h
  cases hbad : malformed? limit s with
  | none =>
    rw [hbad] at h
    exact ⟨rfl, h⟩
  | some bad =>
    rw [hbad] at h
    rw [h.stalled] at hgoing
    cases hgoing

/-- An intake that has stalled is stuck on the first malformed line. -/
theorem Stands.stuck (h : r.Stands limit s) (hstalled : r.stalled = true) :
    ∃ bad, malformed? limit s = some bad ∧ r.Stuck limit bad := by
  rw [Stands] at h
  cases hbad : malformed? limit s with
  | none =>
    rw [hbad] at h
    rw [h.going] at hstalled
    cases hstalled
  | some bad =>
    rw [hbad] at h
    exact ⟨bad, rfl, h⟩

theorem Stands.stalled_iff (h : r.Stands limit s) :
    r.stalled = true ↔ (malformed? limit s).isSome := by
  constructor
  · intro hstalled
    obtain ⟨bad, hbad, -⟩ := h.stuck hstalled
    rw [hbad, Option.isSome_some]
  · intro hbad
    cases hgoing : r.stalled with
    | true => rfl
    | false =>
      rw [(h.holds hgoing).1] at hbad
      cases hbad

/-- **A feed keeps the invariant**, and hands out what it adds to the envelopes that stand before a
malformed line. -/
theorem stands_feed (h : r.Stands limit s) (chunk : ByteArray) :
    ∃ es r', r.feed chunk = (es, r') ∧
      before limit (s ++ toList chunk) = before limit s ++ es ∧
      r'.Stands limit (s ++ toList chunk) := by
  rw [Stands] at h
  cases hs : malformed? limit s with
  | some bad =>
    rw [hs] at h
    obtain ⟨r', -, h', e, -⟩ := h.feed chunk
    refine ⟨[], r', e, ?_, ?_⟩
    · rw [before_append_of_malformed hs, List.append_nil]
    · rw [Stands, malformed?_append, hs]
      exact h'
  | none =>
    rw [hs] at h
    have hflows := malformed?_eq_none_iff.mp hs
    have hall : malformed? limit (s ++ toList chunk)
        = malformed? limit (unfinished s ++ toList chunk) := by
      rw [malformed?_append, hs, Option.none_or]
    cases hbad : malformed? limit (unfinished s ++ toList chunk) with
    | some bad =>
      obtain ⟨r', h', -, e⟩ := feed_stalls h chunk hbad
      refine ⟨_, r', e, before_append_of_flows hflows _, ?_⟩
      rw [Stands, hall, hbad]
      exact h'
    | none =>
      rw [hbad] at hall
      obtain ⟨r', h', e⟩ := feed_holds h chunk (malformed?_eq_none_iff.mp hall)
      refine ⟨_, r', e, ?_, ?_⟩
      · rw [before_append_of_flows hflows, before_of_flows (malformed?_eq_none_iff.mp hbad)]
      · rw [Stands, hall]
        exact h'

/-- **A run of feeds keeps the invariant.** -/
theorem stands_feedAll (chunks : List ByteArray) (h : r.Stands limit s) :
    ∃ es r', r.feedAll chunks = (es, r') ∧
      before limit (s ++ chunks.flatMap toList) = before limit s ++ es ∧
      r'.Stands limit (s ++ chunks.flatMap toList) := by
  induction chunks generalizing r s with
  | nil =>
    rw [List.flatMap_nil, List.append_nil]
    exact ⟨[], r, rfl, (List.append_nil _).symm, h⟩
  | cons chunk rest ih =>
    rw [List.flatMap_cons, ← List.append_assoc]
    obtain ⟨es₁, r₁, e₁, hbefore₁, h₁⟩ := stands_feed h chunk
    obtain ⟨es₂, r₂, e₂, hbefore₂, h₂⟩ := ih h₁
    refine ⟨es₁ ++ es₂, r₂, ?_, ?_, h₂⟩
    · simp only [Intake.feedAll, e₁, e₂]
    · rw [hbefore₂, hbefore₁, List.append_assoc]

theorem stands_fresh (limit : Nat) : (fresh limit .stall).Stands limit [] :=
  holds_fresh limit .stall

end Feeds

/-! ## What a stalled intake is from then on -/

/-- What becomes of an intake that has stalled on the line `bad`, when more comes to it. -/
structure StaysStalled (bad : List UInt8) (r : Intake) (more : List ByteArray) : Prop where
  /-- It is still stalled. -/
  stalled : (r.feedAll more).2.stalled = true
  /-- Nothing has been handed out. -/
  nothing : (r.feedAll more).1 = []
  /-- The line stands at the front of the buffer, with its line feed. -/
  front : bad ++ [lineFeed] <+: (r.feedAll more).2.buffer.toList
  /-- What was buffered is as it was, and behind it stands the beginning of each chunk. -/
  grown : ∃ kept, List.Forall₂ (fun part chunk => part <+: toList chunk) kept more ∧
    (r.feedAll more).2.buffer.toList = r.buffer.toList ++ kept.flatten

/-- **Reading under the policy `stall`.** However a stream is cut into chunks, the envelopes handed
out so far are those of its complete lines of at most `limit` bytes that stand before the first one
that is no envelope; the intake has stalled exactly if there is such a line; and a stalled intake
stays stalled on that line, hands out nothing and only ever lengthens its buffer, whatever comes. -/
theorem feedAll_stall (limit : Nat) (chunks : List ByteArray) :
    let read := (fresh limit .stall).feedAll chunks
    let s := chunks.flatMap toList
    read.1 = before limit s ∧
      (read.2.stalled = true ↔ ∃ line ∈ within limit s, envelope? line = none) ∧
      (read.2.stalled = true →
        ∃ bad, malformed? limit s = some bad ∧ ∀ more, StaysStalled bad read.2 more) := by
  intro read s
  obtain ⟨es, r, hread, hbefore, h⟩ := stands_feedAll chunks (stands_fresh limit)
  rw [List.nil_append] at hbefore h
  have hr : read = (es, r) := hread
  rw [hr]
  refine ⟨hbefore.symm, ?_, ?_⟩
  · rw [h.stalled_iff, malformed?, List.find?_isSome]
    simp [s]
  · intro hstalled
    obtain ⟨bad, hbad, hstuck⟩ := h.stuck hstalled
    refine ⟨bad, hbad, ?_⟩
    intro more
    obtain ⟨r', kept, h', e, hkept, hbytes⟩ := hstuck.feedAll more
    constructor
    · rw [e]
      exact h'.stalled
    · rw [e]
    · rw [e]
      exact h'.front
    · rw [e]
      exact ⟨kept, hkept, hbytes⟩

/-- An envelope and half a line that is none, the other half and two letters more, and then a chunk of
which the first 26 bytes are kept. -/
theorem feedAll_stall_garbage :
    let chunks := ["AAAAAAAAAAAAAAAAAAAAAAAAAAAAAAAA\n%%".toUTF8, "%\nAA".toUTF8]
    let more := [(String.ofList (List.replicate 64 'A')).toUTF8]
    let read := (fresh 32 .stall).feedAll chunks
    read.1.length = 1 ∧ read.2.stalled = true ∧ StaysStalled [37, 37, 37] read.2 more ∧
      (read.2.feedAll more).2.buffer.size = 32 := by
  intro chunks more read
  have hfirst : malformed? 32 (chunks.flatMap toList) = some [37, 37, 37] := by decide +kernel
  have hstalled : read.2.stalled = true := by decide +kernel
  obtain ⟨henvelopes, -, hstays⟩ := feedAll_stall 32 chunks
  obtain ⟨bad, hbad, hmore⟩ := hstays hstalled
  obtain rfl : bad = [37, 37, 37] := Option.some.inj (hbad.symm.trans hfirst)
  refine ⟨?_, hstalled, hmore more, by decide +kernel⟩
  rw [henvelopes]
  decide +kernel

/-! ## How much is buffered -/

theorem feedAll_append (r : Intake) (chunks more : List ByteArray) :
    r.feedAll (chunks ++ more) =
      ((r.feedAll chunks).1 ++ ((r.feedAll chunks).2.feedAll more).1,
        ((r.feedAll chunks).2.feedAll more).2) := by
  induction chunks generalizing r with
  | nil => rfl
  | cons chunk rest ih => simp only [List.cons_append, feedAll, ih, List.append_assoc]

/-- Before the stall no more is buffered than the limit. -/
theorem Holds.size_le {limit : Nat} {policy : MalformedLines} {s : List UInt8} {r : Intake}
    (h : r.Holds limit policy s) : r.buffer.size ≤ limit := by
  rw [← Buffer.length_toList, h.bytes]
  split
  · assumption
  · exact Nat.zero_le limit

/-- **How much is buffered under the policy `stall`.** Without a stall it is at most the limit. With a
stall it is what was buffered after the chunk that stalled the intake, or more up to the limit if
there was room; and that chunk has added no more than its own bytes to what was within the limit
before. -/
theorem size_feedAll_stall (limit : Nat) (chunks : List ByteArray) :
    let read := fun chunks => ((fresh limit .stall).feedAll chunks).2
    if (read chunks).stalled then
      ∃ front chunk back, chunks = front ++ chunk :: back ∧
        (read front).stalled = false ∧ (read front).buffer.size ≤ limit ∧
        (read (front ++ [chunk])).stalled = true ∧
        (read (front ++ [chunk])).buffer.size ≤ (read front).buffer.size + chunk.size ∧
        (read chunks).buffer.size = max (read (front ++ [chunk])).buffer.size
          (min limit ((read (front ++ [chunk])).buffer.size + (back.flatMap toList).length))
    else (read chunks).buffer.size ≤ limit := by
  intro read
  have hone : ∀ (front : List ByteArray) (chunk : ByteArray),
      read (front ++ [chunk]) = ((read front).feed chunk).2 := by
    intro front chunk
    simp only [read, feedAll_append, feedAll]
  have hstands : ∀ chunks, (read chunks).Stands limit (chunks.flatMap toList) := by
    intro chunks
    obtain ⟨es, r, hread, -, h⟩ := stands_feedAll chunks (stands_fresh limit)
    show ((fresh limit .stall).feedAll chunks).2.Stands limit _
    rwa [hread]
  induction chunks using List.reverseRecOn with
  | nil => exact Nat.zero_le limit
  | append_singleton front chunk ih =>
    by_cases hstalled : (read front).stalled = true
    · -- the intake had stalled before: room for the chunk is what is left of the limit
      rw [if_pos hstalled] at ih
      obtain ⟨first, stalling, back, rfl, hgoing, hfirst, hstall, hchunk, hsize⟩ := ih
      obtain ⟨bad, -, hstuck⟩ := (hstands _).stuck hstalled
      obtain ⟨r', -, h', hfeed, -, -, hgrown⟩ := hstuck.feed chunk
      have hread : read (first ++ stalling :: back ++ [chunk]) = r' := by rw [hone, hfeed]
      rw [hread, if_pos h'.stalled]
      refine ⟨first, stalling, back ++ [chunk], by simp, hgoing, hfirst, hstall, hchunk, ?_⟩
      rw [hgrown, hsize, List.flatMap_append, List.length_append, List.flatMap_singleton,
        length_toList]
      omega
    · obtain ⟨hflows, hholds⟩ := (hstands front).holds (by simpa using hstalled)
      by_cases hstall : (read (front ++ [chunk])).stalled = true
      · -- the chunk stalls the intake
        rw [if_pos hstall]
        refine ⟨front, chunk, [], rfl, by simpa using hstalled, hholds.size_le, hstall, ?_, ?_⟩
        · obtain ⟨bad, hbad, -⟩ := (hstands _).stuck hstall
          rw [List.flatMap_append, malformed?_append, hflows, Option.none_or,
            List.flatMap_singleton] at hbad
          obtain ⟨r', -, hsize, hfeed⟩ := feed_stalls hholds chunk hbad
          rw [hone, hfeed]
          exact hsize
        · rw [List.flatMap_nil, List.length_nil]
          omega
      · rw [if_neg hstall]
        exact ((hstands _).holds (by simpa using hstall)).2.size_le

/-- A line that stalls the intake brings the rest of its chunk into the buffer, however much that
is. -/
theorem not_size_le_limit :
    ¬ ∀ (limit : Nat) (chunks : List ByteArray),
      ((fresh limit .stall).feedAll chunks).2.buffer.size ≤ limit := by
  intro h
  have hsize := h 16 ["%%garbage%%\nAAAAAAAAAAAAAAAAAAAA".toUTF8]
  revert hsize
  decide +kernel

end Intake

end SessionMux
