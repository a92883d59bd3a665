import SessionMux.Proofs.Wire.Scanning
import SessionMux.Wire.Intake

/-!
# What an intake reads from a stream

An intake that takes a stream in pieces hands out what the stream as a whole carries
(`Lines.envelopes`), wherever the stream was cut.

The invariant is `Holds`: after the stream `s` the intake is not stalled; if the unfinished line of
`s` is within the limit, it is what the buffer holds, and if not, the buffer is empty and the line
is being dropped. An attempt works off one line (`attempt_line`, `attempt_malformed`,
`attempt_tooLong`, …) and draining the buffer one line after another (`drain_line`,
`drain_malformed`, …), so it is followed by induction on the lines in the buffer;
feeding keeps the invariant (`feed_holds`), and so does a run of feeds (`feedAll_holds`). All this is
for either policy, as long as no line stalls the intake (`Lines.Flows`).

* **`feedAll_skip`** — under the policy `skip` the envelopes handed out and the buffer kept are
  functions of the stream.
-/

namespace SessionMux

namespace Lines

/-- No complete line of the stream makes an intake of this policy stall. -/
def Flows (policy : MalformedLines) (limit : Nat) (s : List UInt8) : Prop :=
  policy = .stall → ∀ line ∈ within limit s, (envelope? line).isSome

theorem flows_skip (limit : Nat) (s : List UInt8) : Flows .skip limit s :=
  fun h => absurd h (by decide)

theorem Flows.of_append {policy : MalformedLines} {limit : Nat} {s t : List UInt8}
    (h : Flows policy limit (s ++ t)) :
    Flows policy limit s ∧ Flows policy limit (unfinished s ++ t) := by
  constructor <;> intro hp line hl <;> refine h hp line ?_ <;> rw [within_append]
  · exact List.mem_append_left _ hl
  · exact List.mem_append_right _ hl

/-- What comes behind a line flows if all does. -/
theorem Flows.behind {policy : MalformedLines} {limit : Nat} {line rest : List UInt8}
    (h : Flows policy limit (line ++ lineFeed :: rest)) (hline : lineFeed ∉ line) :
    Flows policy limit rest := by
  rw [List.append_cons] at h
  have hrest := h.of_append.2
  rwa [unfinished_line hline, unfinished_of_notMem List.not_mem_nil, List.nil_append] at hrest

/-- A line that is no envelope flows under the policy `skip` only. -/
theorem Flows.skip {policy : MalformedLines} {limit : Nat} {line rest : List UInt8}
    (h : Flows policy limit (line ++ lineFeed :: rest)) (hline : lineFeed ∉ line)
    (hl : line.length ≤ limit) (he : envelope? line = none) : policy = .skip := by
  cases hpol : policy with
  | skip => rfl
  | stall =>
    have hin : line ∈ within limit (line ++ lineFeed :: rest) := by
      rw [within_line hline hl]
      exact List.mem_cons_self
    have hsome := h hpol line hin
    rw [he] at hsome
    cases hsome

/-- What is no envelope has a fault. -/
theorem exists_fault {line : List UInt8} (h : envelope? line = none) :
    ∃ f, Envelope.ofLine (Octets.ofList (withoutReturn line)) = .error f := by
  rw [envelope?] at h
  cases hx : Envelope.ofLine (Octets.ofList (withoutReturn line)) with
  | ok e => rw [hx] at h; cases h
  | error f => exact ⟨f, rfl⟩

theorem envelopes_of_notMem (limit : Nat) {s : List UInt8} (h : lineFeed ∉ s) :
    envelopes limit s = [] := by
  rw [envelopes, within_of_notMem limit h, List.filterMap_nil]

theorem envelopes_line {limit : Nat} {line : List UInt8} (h : lineFeed ∉ line)
    (hl : line.length ≤ limit) (rest : List UInt8) :
    envelopes limit (line ++ lineFeed :: rest)
      = (envelope? line).toList ++ envelopes limit rest := by
  rw [envelopes, within_line h hl, List.filterMap_cons]
  cases envelope? line <;> rfl

theorem envelopes_long {limit : Nat} {line : List UInt8} (h : lineFeed ∉ line)
    (hl : limit < line.length) (rest : List UInt8) :
    envelopes limit (line ++ lineFeed :: rest) = envelopes limit rest := by
  rw [envelopes, within_long h hl]
  rfl

end Lines

open Lines

namespace Intake

/-- An intake before anything has arrived. -/
def fresh (limit : Nat) (policy : MalformedLines) : Intake where
  framer := { limit := limit, policy := policy }

/-! ## Loaded intakes -/

/-- An intake of given rules that has not stalled and has the bytes `l` to work off; `dropping`
tells whether they go on a line that is being dropped. -/
structure Loaded (limit : Nat) (policy : MalformedLines) (dropping : Bool) (l : List UInt8)
    (r : Intake) : Prop where
  limit_eq : r.framer.limit = limit
  policy_eq : r.framer.policy = policy
  sound : r.framer.Sound r.buffer
  going : r.stalled = false
  dropping_eq : r.framer.discarding = dropping
  bytes : r.buffer.toList = l

/-- **The invariant of reading**: where an intake is that has taken in the stream `s`. -/
def Holds (limit : Nat) (policy : MalformedLines) (s : List UInt8) : Intake → Prop :=
  if limit < (unfinished s).length then Loaded limit policy true []
  else Loaded limit policy false (unfinished s)

theorem holds_fresh (limit : Nat) (policy : MalformedLines) :
    (fresh limit policy).Holds limit policy [] := by
  have hnil : unfinished [] = [] := rfl
  rw [Holds, hnil, if_neg (by simp)]
  exact ⟨rfl, rfl, Framer.sound_of_scanned_eq_zero rfl _, rfl, rfl, rfl⟩

theorem Loaded.append {limit : Nat} {policy : MalformedLines} {dropping : Bool} {l : List UInt8}
    {r : Intake} (h : r.Loaded limit policy dropping l) (chunk : ByteArray) :
    { r with buffer := r.buffer.append chunk }.Loaded limit policy dropping
      (l ++ Octets.toList chunk) where
  limit_eq := h.limit_eq
  policy_eq := h.policy_eq
  sound := h.sound.append chunk
  going := h.going
  dropping_eq := h.dropping_eq
  bytes := by rw [Buffer.toList_append, h.bytes]

/-! ## One attempt

What an attempt comes to, for each kind of line that can stand in front, with what the intake holds
after it. Where the line is dropped without a word, the attempt goes on behind it.
-/

section Attempts

variable {limit : Nat} {policy : MalformedLines} {line rest l : List UInt8} {r : Intake}

/-- An envelope is taken. -/
theorem attempt_line (h : r.Loaded limit policy false (line ++ lineFeed :: rest))
    (hline : lineFeed ∉ line) (hl : line.length ≤ limit) {e : Envelope}
    (he : envelope? line = some e) :
    ∃ f b, r.framer.decode r.buffer = (.envelope e, f, b) ∧
      Loaded limit policy false rest { r with framer := f, buffer := b } := by
  have hdec := Framer.decode_line h.sound h.dropping_eq h.bytes hline (h.limit_eq ▸ hl)
  have hok : Envelope.ofLine (Octets.ofList (withoutReturn line)) = .ok e := by
    rw [envelope?] at he
    cases hx : Envelope.ofLine (Octets.ofList (withoutReturn line)) with
    | ok e' => rw [hx] at he; exact congrArg _ (Option.some.inj he)
    | error f => rw [hx] at he; cases he
  rw [hok] at hdec
  exact ⟨_, _, hdec, h.limit_eq, h.policy_eq, Framer.sound_of_scanned_eq_zero rfl _, h.going,
    h.dropping_eq, Buffer.toList_drop_line h.bytes⟩

/-- A line that is no envelope is skipped. -/
theorem attempt_malformed (h : r.Loaded limit .skip false (line ++ lineFeed :: rest))
    (hline : lineFeed ∉ line) (hl : line.length ≤ limit) (he : envelope? line = none) :
    ∃ f b, r.framer.decode r.buffer = f.decode b ∧
      Loaded limit .skip false rest { r with framer := f, buffer := b } := by
  have hdec := Framer.decode_line h.sound h.dropping_eq h.bytes hline (h.limit_eq ▸ hl)
  obtain ⟨f, hf⟩ := exists_fault he
  rw [hf, h.policy_eq] at hdec
  exact ⟨_, _, hdec, h.limit_eq, rfl, Framer.sound_of_scanned_eq_zero rfl _, h.going,
    h.dropping_eq, Buffer.toList_drop_line h.bytes⟩

/-- A line that has grown above the limit is reported and begins to be dropped. -/
theorem attempt_tooLong (h : r.Loaded limit policy false l)
    (hclean : lineFeed ∉ l.take (limit + 1)) (hl : limit < l.length) :
    ∃ f b, r.framer.decode r.buffer = (.fault (.lineTooLong limit), f, b) ∧
      Loaded limit policy true l { r with framer := f, buffer := b } := by
  have hdec := Framer.decode_tooLong h.dropping_eq (by rw [h.bytes, h.limit_eq]; exact hclean)
    (by rw [← Buffer.length_toList, h.bytes, h.limit_eq]; exact hl)
  have hfault := congrArg (fun n => (Framed.fault (.lineTooLong n),
    { r.framer with scanned := 0, discarding := true }, r.buffer)) h.limit_eq
  exact ⟨_, _, hdec.trans hfault, h.limit_eq, h.policy_eq, Framer.sound_of_scanned_eq_zero rfl _,
    h.going, rfl, h.bytes⟩

/-- So is a line that is above the limit when its line feed comes. -/
theorem attempt_long (h : r.Loaded limit policy false (line ++ lineFeed :: rest))
    (hline : lineFeed ∉ line) (hlong : limit < line.length) :
    ∃ f b, r.framer.decode r.buffer = (.fault (.lineTooLong limit), f, b) ∧
      Loaded limit policy true (line ++ lineFeed :: rest)
        { r with framer := f, buffer := b } := by
  apply attempt_tooLong h
  · rw [List.take_append_of_le_length hlong]
    exact fun hm => hline (List.mem_of_mem_take hm)
  · rw [List.length_append]
    omega

/-- The line feed of a line that is being dropped ends the dropping. -/
theorem attempt_dropping_line (h : r.Loaded limit policy true (line ++ lineFeed :: rest))
    (hline : lineFeed ∉ line) :
    ∃ f b, r.framer.decode r.buffer = f.decode b ∧
      Loaded limit policy false rest { r with framer := f, buffer := b } := by
  have h0 := h.sound.fresh h.dropping_eq
  obtain ⟨b', hb', hdec⟩ := Framer.decode_discarding_line h.dropping_eq h0 h.bytes hline
  refine ⟨_, _, hdec, h.limit_eq, h.policy_eq, ?_, h.going, rfl, hb'⟩
  exact Framer.sound_of_scanned_eq_zero (f := { r.framer with discarding := false }) h0 b'

/-- Without a line feed the dropping goes on, and the buffer is empty. -/
theorem attempt_dropping_unfinished (h : r.Loaded limit policy true l) (hl : lineFeed ∉ l) :
    ∃ f b, r.framer.decode r.buffer = (.nothing, f, b) ∧
      Loaded limit policy true [] { r with framer := f, buffer := b } := by
  have h0 := h.sound.fresh h.dropping_eq
  obtain ⟨b', hb', hdec⟩ := Framer.decode_discarding_unfinished h.dropping_eq h0
    (by rw [h.bytes]; exact hl)
  exact ⟨_, _, hdec, h.limit_eq, h.policy_eq, Framer.sound_of_scanned_eq_zero h0 _, h.going,
    h.dropping_eq, hb'⟩

/-- A line that is not complete waits in the buffer. -/
theorem attempt_unfinished (h : r.Loaded limit policy false l) (hl : lineFeed ∉ l)
    (hsize : l.length ≤ limit) :
    ∃ f b, r.framer.decode r.buffer = (.nothing, f, b) ∧
      Loaded limit policy false l { r with framer := f, buffer := b } := by
  have hbsize : r.buffer.size ≤ r.framer.limit := by
    rw [← Buffer.length_toList, h.bytes, h.limit_eq]
    exact hsize
  have hdec := Framer.decode_unfinished h.dropping_eq (by rw [h.bytes]; exact hl) hbsize
  refine ⟨_, _, hdec, h.limit_eq, h.policy_eq, ⟨Nat.le_refl _, hbsize, ?_, ?_⟩, h.going,
    h.dropping_eq, h.bytes⟩
  · rw [h.bytes]
    exact fun hm => hl (List.mem_of_mem_take hm)
  · intro hd
    rw [h.dropping_eq] at hd
    exact absurd hd (by decide)

end Attempts

/-! ## Working off one line -/

theorem drain_eq (r : Intake) (taken : List Envelope) :
    r.drain taken =
      match r.framer.decode r.buffer with
      | (.envelope e, f, b) => drain { r with framer := f, buffer := b } (e :: taken)
      | (.nothing, f, b) => (taken.reverse, { r with framer := f, buffer := b })
      | (.fault (.lineTooLong _), f, b) => drain { r with framer := f, buffer := b } taken
      | (.fault e, f, b) =>
        (taken.reverse,
          { r with framer := f, buffer := b, stalled := r.stalled || e.isMalformedLine }) := by
  rw [drain]
  split
  · rename_i h
    rw [h]
  · rename_i h
    rw [h]
  · rename_i h
    rw [h]
  · rename_i hne h
    rw [h]
    split
    · rename_i heq
      cases heq
    · rename_i heq
      cases heq
    · rename_i heq
      cases heq
      exact absurd rfl (hne _)
    · rename_i heq
      cases heq
      rfl

/-- What the next attempt comes to is all that counts. -/
theorem drain_congr {r : Intake} {f : Framer} {b : Buffer} (taken : List Envelope)
    (h : r.framer.decode r.buffer = f.decode b) :
    r.drain taken = { r with framer := f, buffer := b }.drain taken := by
  rw [drain_eq, drain_eq, h]

section Steps

variable {limit : Nat} {policy : MalformedLines} {line rest l : List UInt8} {r : Intake}

theorem drain_line (h : r.Loaded limit policy false (line ++ lineFeed :: rest))
    (hline : lineFeed ∉ line) (hl : line.length ≤ limit) {e : Envelope}
    (he : envelope? line = some e) (taken : List Envelope) :
    ∃ r', Loaded limit policy false rest r' ∧ r.drain taken = r'.drain (e :: taken) := by
  obtain ⟨f, b, hdec, h'⟩ := attempt_line h hline hl he
  exact ⟨_, h', by rw [drain_eq, hdec]⟩

theorem drain_malformed (h : r.Loaded limit .skip false (line ++ lineFeed :: rest))
    (hline : lineFeed ∉ line) (hl : line.length ≤ limit) (he : envelope? line = none)
    (taken : List Envelope) :
    ∃ r', Loaded limit .skip false rest r' ∧ r.drain taken = r'.drain taken := by
  obtain ⟨f, b, hdec, h'⟩ := attempt_malformed h hline hl he
  exact ⟨_, h', drain_congr taken hdec⟩

theorem drain_tooLong (h : r.Loaded limit policy false l)
    (hclean : lineFeed ∉ l.take (limit + 1)) (hl : limit < l.length) (taken : List Envelope) :
    ∃ r', Loaded limit policy true l r' ∧ r.drain taken = r'.drain taken := by
  obtain ⟨f, b, hdec, h'⟩ := attempt_tooLong h hclean hl
  exact ⟨_, h', by rw [drain_eq, hdec]⟩

theorem drain_dropping_line (h : r.Loaded limit policy true (line ++ lineFeed :: rest))
    (hline : lineFeed ∉ line) (taken : List Envelope) :
    ∃ r', Loaded limit policy false rest r' ∧ r.drain taken = r'.drain taken := by
  obtain ⟨f, b, hdec, h'⟩ := attempt_dropping_line h hline
  exact ⟨_, h', drain_congr taken hdec⟩

/-- A line above the limit is reported, and dropped up to its line feed. -/
theorem drain_long (h : r.Loaded limit policy false (line ++ lineFeed :: rest))
    (hline : lineFeed ∉ line) (hlong : limit < line.length) (taken : List Envelope) :
    ∃ r', Loaded limit policy false rest r' ∧ r.drain taken = r'.drain taken := by
  obtain ⟨f, b, hdec, h₁⟩ := attempt_long h hline hlong
  obtain ⟨r₂, h₂, e₂⟩ := drain_dropping_line h₁ hline taken
  refine ⟨r₂, h₂, ?_⟩
  rw [drain_eq, hdec]
  exact e₂

theorem drain_dropping_unfinished (h : r.Loaded limit policy true l) (hl : lineFeed ∉ l)
    (taken : List Envelope) :
    ∃ r', Loaded limit policy true [] r' ∧ r.drain taken = (taken.reverse, r') := by
  obtain ⟨f, b, hdec, h'⟩ := attempt_dropping_unfinished h hl
  exact ⟨_, h', by rw [drain_eq, hdec]⟩

theorem drain_unfinished (h : r.Loaded limit policy false l) (hl : lineFeed ∉ l)
    (hsize : l.length ≤ limit) (taken : List Envelope) :
    ∃ r', Loaded limit policy false l r' ∧ r.drain taken = (taken.reverse, r') := by
  obtain ⟨f, b, hdec, h'⟩ := attempt_unfinished h hl hsize
  exact ⟨_, h', by rw [drain_eq, hdec]⟩

end Steps

/-! ## Working off a buffer -/

section Runs

variable {limit : Nat} {policy : MalformedLines} {s l : List UInt8} {r : Intake}

/-- **Draining hands out what the buffer carries** and leaves its unfinished line. -/
theorem drain_loaded (h : r.Loaded limit policy false l) (hflow : Flows policy limit l)
    (taken : List Envelope) :
    ∃ r', Holds limit policy l r' ∧ r.drain taken = (taken.reverse ++ envelopes limit l, r') := by
  induction l using stream_induction generalizing r taken with
  | unfinished l hl =>
    rw [Holds, unfinished_of_notMem hl, envelopes_of_notMem limit hl, List.append_nil]
    by_cases hlong : limit < l.length
    · obtain ⟨r₁, h₁, e₁⟩ := drain_tooLong h (fun hm => hl (List.mem_of_mem_take hm)) hlong taken
      obtain ⟨r₂, h₂, e₂⟩ := drain_dropping_unfinished h₁ hl taken
      rw [if_pos hlong]
      exact ⟨r₂, h₂, e₁.trans e₂⟩
    · obtain ⟨r₁, h₁, e₁⟩ := drain_unfinished h hl (by omega) taken
      rw [if_neg hlong]
      exact ⟨r₁, h₁, e₁⟩
  | line line rest hline ih =>
    have hholds : Holds limit policy (line ++ lineFeed :: rest) = Holds limit policy rest := by
      rw [Holds, Holds, unfinished_line hline]
    have hflow' := hflow.behind hline
    by_cases hlong : limit < line.length
    · obtain ⟨r₁, h₁, e₁⟩ := drain_long h hline hlong taken
      obtain ⟨r₂, h₂, e₂⟩ := ih h₁ hflow' taken
      rw [hholds, envelopes_long hline hlong]
      exact ⟨r₂, h₂, e₁.trans e₂⟩
    · have hl : line.length ≤ limit := by omega
      rw [hholds, envelopes_line hline hl]
      cases he : envelope? line with
      | some e =>
        obtain ⟨r₁, h₁, e₁⟩ := drain_line h hline hl he taken
        obtain ⟨r₂, h₂, e₂⟩ := ih h₁ hflow' (e :: taken)
        refine ⟨r₂, h₂, ?_⟩
        rw [e₁, e₂, List.reverse_cons, List.append_assoc]
        rfl
      | none =>
        obtain rfl : policy = .skip := hflow.skip hline hl he
        obtain ⟨r₁, h₁, e₁⟩ := drain_malformed h hline hl he taken
        obtain ⟨r₂, h₂, e₂⟩ := ih h₁ hflow' taken
        exact ⟨r₂, h₂, e₁.trans e₂⟩

/-- **Draining while a line is being dropped**: `p` is what has been dropped of it. -/
theorem drain_dropping (h : r.Loaded limit policy true l) {p : List UInt8} (hp : lineFeed ∉ p)
    (hlong : limit < p.length) (hflow : Flows policy limit (p ++ l)) (taken : List Envelope) :
    ∃ r', Holds limit policy (p ++ l) r' ∧
      r.drain taken = (taken.reverse ++ envelopes limit (p ++ l), r') := by
  by_cases hl : lineFeed ∈ l
  · obtain ⟨line, rest, hline, rfl, hpline, hlonger⟩ := exists_longer_line hp hlong hl
    rw [← List.append_assoc] at hflow ⊢
    obtain ⟨r₁, h₁, e₁⟩ := drain_dropping_line h hline taken
    obtain ⟨r₂, h₂, e₂⟩ := drain_loaded h₁ (hflow.behind hpline) taken
    refine ⟨r₂, ?_, ?_⟩
    · rw [Holds, unfinished_line hpline]
      exact h₂
    · rw [envelopes_long hpline hlonger, e₁, e₂]
  · have hpl : lineFeed ∉ p ++ l := List.not_mem_append hp hl
    obtain ⟨r₁, h₁, e₁⟩ := drain_dropping_unfinished h hl taken
    refine ⟨r₁, ?_, ?_⟩
    · rw [Holds, unfinished_of_notMem hpl, if_pos (by rw [List.length_append]; omega)]
      exact h₁
    · rw [envelopes_of_notMem limit hpl, List.append_nil, e₁]

/-- **A feed keeps the invariant** and hands out what it adds to what the stream carries. -/
theorem feed_holds (h : r.Holds limit policy s) (chunk : ByteArray)
    (hflow : Flows policy limit (s ++ Octets.toList chunk)) :
    ∃ r', Holds limit policy (s ++ Octets.toList chunk) r' ∧
      r.feed chunk = (envelopes limit (unfinished s ++ Octets.toList chunk), r') := by
  have hfeed : r.stalled = false →
      r.feed chunk = { r with buffer := r.buffer.append chunk }.drain [] := by
    intro hgo
    rw [feed, hgo, if_neg Bool.false_ne_true]
  have hholds : Holds limit policy (s ++ Octets.toList chunk)
      = Holds limit policy (unfinished s ++ Octets.toList chunk) := by
    rw [Holds, Holds, unfinished_append]
  rw [hholds]
  by_cases hlong : limit < (unfinished s).length
  · rw [Holds, if_pos hlong] at h
    rw [hfeed h.going]
    exact drain_dropping (h.append chunk) (notMem_unfinished s) hlong hflow.of_append.2 []
  · rw [Holds, if_neg hlong] at h
    rw [hfeed h.going]
    exact drain_loaded (h.append chunk) hflow.of_append.2 []

/-- **A run of feeds** hands out what the stream carries. -/
theorem feedAll_holds (chunks : List ByteArray) (h : r.Holds limit policy s)
    (hflow : Flows policy limit (s ++ chunks.flatMap Octets.toList)) :
    ∃ es r', r.feedAll chunks = (es, r') ∧
      envelopes limit (s ++ chunks.flatMap Octets.toList) = envelopes limit s ++ es ∧
      Holds limit policy (s ++ chunks.flatMap Octets.toList) r' := by
  induction chunks generalizing r s with
  | nil =>
    rw [List.flatMap_nil, List.append_nil] at hflow ⊢
    exact ⟨[], r, rfl, (List.append_nil _).symm, h⟩
  | cons chunk rest ih =>
    rw [List.flatMap_cons, ← List.append_assoc] at hflow ⊢
    obtain ⟨r₁, h₁, e₁⟩ := feed_holds h chunk hflow.of_append.1
    obtain ⟨es, r₂, e₂, henv, h₂⟩ := ih h₁ hflow
    refine ⟨envelopes limit (unfinished s ++ Octets.toList chunk) ++ es, r₂, ?_, ?_, h₂⟩
    · simp only [feedAll, e₁, e₂]
    · rw [henv, envelopes_append limit s, List.append_assoc]

theorem Holds.going (h : r.Holds limit policy s) : r.stalled = false := by
  rw [Holds] at h
  split at h <;> exact h.going

theorem Holds.bytes (h : r.Holds limit policy s) :
    r.buffer.toList = if (unfinished s).length ≤ limit then unfinished s else [] := by
  rw [Holds] at h
  split at h
  · rw [if_neg (by omega), h.bytes]
  · rw [if_pos (by omega), h.bytes]

end Runs

/-- **Reading under the policy `skip`.** However a stream is cut into chunks, the envelopes handed
out so far are those of its complete lines of at most `limit` bytes; the buffer holds the unfinished
line, or nothing when that line is above the limit; and the intake never stalls. -/
theorem feedAll_skip (limit : Nat) (chunks : List ByteArray) :
    ((fresh limit .skip).feedAll chunks).1 = envelopes limit (chunks.flatMap Octets.toList) ∧
      ((fresh limit .skip).feedAll chunks).2.buffer.toList =
        (if (unfinished (chunks.flatMap Octets.toList)).length ≤ limit then
          unfinished (chunks.flatMap Octets.toList) else []) ∧
      ((fresh limit .skip).feedAll chunks).2.stalled = false := by
  obtain ⟨es, r, hread, henv, h⟩ :=
    feedAll_holds chunks (holds_fresh limit .skip) (flows_skip limit _)
  rw [List.nil_append] at henv h
  rw [hread]
  exact ⟨henv.symm, h.bytes, h.going⟩

end Intake

end SessionMux
