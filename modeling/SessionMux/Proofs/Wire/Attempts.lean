import SessionMux.Proofs.Wire.Intake

/-!
# What an intake reports while it reads

Between two envelopes an intake may have had to report a fault, which is not seen in what it hands
out. Here every attempt that a feed makes is kept with what it came to.

* `Intake.attempts`, `Intake.attemptsAll` — the attempts of one drain, and of a run of feeds.
* `drain_fst` — the envelopes handed out are those of the attempts.
* `Lines.tooLong` — how many lines of a stream have grown above the limit, the unfinished one counted.
* **`faults_attemptsAll`** — as long as no line stalls the intake, every line above the limit is
  reported once, and there is no other fault, wherever the stream was cut.
-/

namespace SessionMux

namespace Framed

/-- The envelope that an attempt has taken. -/
def envelope? : Framed → Option Envelope
  | envelope e => some e
  | _ => none

/-- The fault that an attempt has reported. -/
def fault? : Framed → Option WireFault
  | fault f => some f
  | _ => none

end Framed

/-! ## Lines above the limit -/

namespace Lines

/-- So many lines of a stream are above the limit, the unfinished one counted. -/
def tooLong (limit : Nat) (s : List UInt8) : Nat :=
  ((complete s).filter fun line => limit < line.length).length +
    if limit < (unfinished s).length then 1 else 0

theorem tooLong_of_notMem (limit : Nat) {s : List UInt8} (h : lineFeed ∉ s) :
    tooLong limit s = if limit < s.length then 1 else 0 := by
  rw [tooLong, complete_of_notMem h, unfinished_of_notMem h, List.filter_nil, List.length_nil,
    Nat.zero_add]

theorem tooLong_line {limit : Nat} {line : List UInt8} (h : lineFeed ∉ line)
    (hl : line.length ≤ limit) (rest : List UInt8) :
    tooLong limit (line ++ lineFeed :: rest) = tooLong limit rest := by
  rw [tooLong, complete_line h, unfinished_line h, List.filter_cons_of_neg (by simpa using hl)]
  rfl

theorem tooLong_long {limit : Nat} {line : List UInt8} (h : lineFeed ∉ line)
    (hl : limit < line.length) (rest : List UInt8) :
    tooLong limit (line ++ lineFeed :: rest) = tooLong limit rest + 1 := by
  rw [tooLong, complete_line h, unfinished_line h, List.filter_cons_of_pos (by simpa using hl),
    List.length_cons, tooLong]
  omega

/-- What comes behind a stream makes its unfinished line longer, which is not counted twice. -/
theorem tooLong_append (limit : Nat) (s t : List UInt8) :
    tooLong limit (s ++ t) + (if limit < (unfinished s).length then 1 else 0) =
      tooLong limit s + tooLong limit (unfinished s ++ t) := by
  rw [tooLong, tooLong, tooLong, complete_append, unfinished_append, List.filter_append,
    List.length_append]
  omega

/-- A line above the limit is counted, whatever follows. -/
theorem tooLong_pos {limit : Nat} {line : List UInt8} (h : lineFeed ∉ line)
    (hl : limit < line.length) (t : List UInt8) : 1 ≤ tooLong limit (line ++ t) := by
  have hlonger : ∀ more : List UInt8, limit < (line ++ more).length := fun more => by
    rw [List.length_append]
    omega
  by_cases ht : lineFeed ∈ t
  · obtain ⟨more, rest, hmore, rfl⟩ := exists_line ht
    have hline : lineFeed ∉ line ++ more := List.not_mem_append h hmore
    rw [← List.append_assoc, tooLong_long hline (hlonger more)]
    omega
  · have hline : lineFeed ∉ line ++ t := List.not_mem_append h ht
    exact Nat.le_of_eq (by rw [tooLong_of_notMem limit hline, if_pos (hlonger t)])

theorem tooLong_le_append (limit : Nat) (s t : List UInt8) :
    tooLong limit s ≤ tooLong limit (s ++ t) := by
  have happend := tooLong_append limit s t
  by_cases h : limit < (unfinished s).length
  · have hpos := tooLong_pos (notMem_unfinished s) h t
    rw [if_pos h] at happend
    omega
  · rw [if_neg h] at happend
    omega

end Lines

open Lines

namespace Intake

/-! ## Attempts -/

/-- What the attempts come to that are made until there is nothing, or a line stalls the intake; the
last one is counted. -/
def attempts (r : Intake) : List Framed :=
  match _h : r.framer.decode r.buffer with
  | (.envelope e, f, b) => .envelope e :: attempts { r with framer := f, buffer := b }
  | (.nothing, _, _) => [.nothing]
  | (.fault (.lineTooLong n), f, b) =>
    .fault (.lineTooLong n) :: attempts { r with framer := f, buffer := b }
  | (.fault e, _, _) => [.fault e]
termination_by r.framer.toDo r.buffer
decreasing_by
  all_goals
    have := Framer.decode_decreases r.framer r.buffer
    rw [_h] at this
    exact this

/-- The attempts that a chunk brings on. -/
def attemptsOf (r : Intake) (chunk : ByteArray) : List Framed :=
  if r.stalled then [] else attempts { r with buffer := r.buffer.append chunk }

/-- The attempts that one chunk after another brings on. -/
def attemptsAll (r : Intake) : List ByteArray → List Framed
  | [] => []
  | chunk :: rest => r.attemptsOf chunk ++ (r.feed chunk).2.attemptsAll rest

/-- The faults that one chunk after another brings on, in order. -/
def faultsAll (r : Intake) (chunks : List ByteArray) : List WireFault :=
  (r.attemptsAll chunks).filterMap Framed.fault?

/-- The attempts, without the bookkeeping that shows them to come to an end. -/
theorem attempts_eq (r : Intake) :
    r.attempts =
      match r.framer.decode r.buffer with
      | (.envelope e, f, b) => .envelope e :: attempts { r with framer := f, buffer := b }
      | (.nothing, _, _) => [.nothing]
      | (.fault (.lineTooLong n), f, b) =>
        .fault (.lineTooLong n) :: attempts { r with framer := f, buffer := b }
      | (.fault e, _, _) => [.fault e] := by
  rw [attempts]
  split <;> rename_i h <;> simp only [h]

/-- What the next attempt comes to is all that counts. -/
theorem attempts_congr {r : Intake} {f : Framer} {b : Buffer}
    (h : r.framer.decode r.buffer = f.decode b) :
    r.attempts = attempts { r with framer := f, buffer := b } := by
  rw [attempts_eq, attempts_eq { r with framer := f, buffer := b }, h]

/-- **The envelopes handed out are those of the attempts.** -/
theorem drain_fst (r : Intake) (taken : List Envelope) :
    (r.drain taken).1 = taken.reverse ++ r.attempts.filterMap Framed.envelope? := by
  fun_induction drain r taken with
  | case1 r taken e f b h ih =>
    rw [ih, attempts_eq r, h, List.reverse_cons, List.append_assoc]
    rfl
  | case2 r taken f b h =>
    rw [attempts_eq, h]
    exact (List.append_nil _).symm
  | case3 r taken n f b h ih =>
    rw [ih, attempts_eq r, h]
    rfl
  | case4 r taken e f b hne h =>
    simp only [attempts_eq r, h]
    exact (List.append_nil _).symm

/-! ## Faults -/

/-- The report of `n` lines above the limit. -/
abbrev reports (limit n : Nat) : List WireFault := List.replicate n (.lineTooLong limit)

section Faults

variable {limit : Nat} {policy : MalformedLines} {s l : List UInt8} {r : Intake}

/-- A line above the limit that has not ended is reported at once, and nothing after it. -/
theorem faults_tooLong_unfinished (h : r.Loaded limit policy false l) (hl : lineFeed ∉ l)
    (hlong : limit < l.length) :
    r.attempts.filterMap Framed.fault? = reports limit 1 := by
  obtain ⟨f₁, b₁, hdec₁, h₁⟩ :=
    attempt_tooLong h (fun hm => hl (List.mem_of_mem_take hm)) hlong
  obtain ⟨f₂, b₂, hdec₂, -⟩ := attempt_dropping_unfinished h₁ hl
  rw [attempts_eq, hdec₁]
  show ([_] ++ attempts _).filterMap Framed.fault? = _
  rw [attempts_eq, hdec₂]
  rfl

/-- **Working off a buffer** reports its lines above the limit. -/
theorem faults_loaded (h : r.Loaded limit policy false l) (hflow : Flows policy limit l) :
    r.attempts.filterMap Framed.fault? = reports limit (tooLong limit l) := by
  induction l using stream_induction generalizing r with
  | unfinished l hl =>
    rw [tooLong_of_notMem limit hl]
    by_cases hlong : limit < l.length
    · rw [if_pos hlong]
      exact faults_tooLong_unfinished h hl hlong
    · obtain ⟨f, b, hdec, -⟩ := attempt_unfinished h hl (Nat.le_of_not_lt hlong)
      rw [if_neg hlong, attempts_eq, hdec]
      rfl
  | line line rest hline ih =>
    have hflow' := hflow.behind hline
    by_cases hlong : limit < line.length
    · obtain ⟨f₁, b₁, hdec₁, h₁⟩ := attempt_long h hline hlong
      obtain ⟨f₂, b₂, hdec₂, h₂⟩ := attempt_dropping_line h₁ hline
      rw [attempts_eq, hdec₁, tooLong_long hline hlong]
      show WireFault.lineTooLong limit :: (attempts _).filterMap Framed.fault? = _
      rw [attempts_congr hdec₂, ih h₂ hflow']
      rfl
    · have hl : line.length ≤ limit := Nat.le_of_not_lt hlong
      rw [tooLong_line hline hl]
      cases he : envelope? line with
      | some e =>
        obtain ⟨f₁, b₁, hdec₁, h₁⟩ := attempt_line h hline hl he
        rw [attempts_eq, hdec₁]
        exact ih h₁ hflow'
      | none =>
        obtain rfl : policy = .skip := hflow.skip hline hl he
        obtain ⟨f₁, b₁, hdec₁, h₁⟩ := attempt_malformed h hline hl he
        rw [attempts_congr hdec₁]
        exact ih h₁ hflow'

/-- **Working off a buffer while a line is being dropped**: `p` is what has been dropped of it, and it
has been reported. -/
theorem faults_dropping (h : r.Loaded limit policy true l) {p : List UInt8} (hp : lineFeed ∉ p)
    (hlong : limit < p.length) (hflow : Flows policy limit (p ++ l)) :
    r.attempts.filterMap Framed.fault? = reports limit (tooLong limit (p ++ l) - 1) := by
  by_cases hl : lineFeed ∈ l
  · obtain ⟨line, rest, hline, rfl, hpline, hlonger⟩ := exists_longer_line hp hlong hl
    rw [← List.append_assoc] at hflow ⊢
    obtain ⟨f, b, hdec, h'⟩ := attempt_dropping_line h hline
    rw [attempts_congr hdec, faults_loaded h' (hflow.behind hpline), tooLong_long hpline hlonger,
      Nat.add_sub_cancel]
  · have hpl : lineFeed ∉ p ++ l := List.not_mem_append hp hl
    obtain ⟨f, b, hdec, -⟩ := attempt_dropping_unfinished h hl
    rw [attempts_eq, hdec, tooLong_of_notMem limit hpl,
      if_pos (by rw [List.length_append]; omega)]
    rfl

/-- **A feed** reports the lines that it makes grow above the limit. -/
theorem faults_feed (h : r.Holds limit policy s) (chunk : ByteArray)
    (hflow : Flows policy limit (s ++ Octets.toList chunk)) :
    (r.attemptsOf chunk).filterMap Framed.fault? =
      reports limit (tooLong limit (s ++ Octets.toList chunk) - tooLong limit s) := by
  have hcount := tooLong_append limit s (Octets.toList chunk)
  rw [attemptsOf, if_neg (by rw [h.going]; exact Bool.false_ne_true)]
  by_cases hlong : limit < (unfinished s).length
  · rw [Holds, if_pos hlong] at h
    rw [if_pos hlong] at hcount
    rw [faults_dropping (l := Octets.toList chunk) (h.append chunk) (notMem_unfinished s) hlong
      hflow.of_append.2]
    congr 1
    omega
  · rw [Holds, if_neg hlong] at h
    rw [if_neg hlong] at hcount
    rw [faults_loaded (h.append chunk) hflow.of_append.2]
    congr 1
    omega

/-- **A run of feeds** reports every line above the limit once, and nothing else. -/
theorem faults_attemptsAll (chunks : List ByteArray) (h : r.Holds limit policy s)
    (hflow : Flows policy limit (s ++ chunks.flatMap Octets.toList)) :
    r.faultsAll chunks =
      reports limit (tooLong limit (s ++ chunks.flatMap Octets.toList) - tooLong limit s) := by
  induction chunks generalizing r s with
  | nil =>
    rw [List.flatMap_nil, List.append_nil, Nat.sub_self]
    rfl
  | cons chunk rest ih =>
    rw [List.flatMap_cons, ← List.append_assoc] at hflow ⊢
    obtain ⟨r₁, h₁, e₁⟩ := feed_holds h chunk hflow.of_append.1
    have hle := tooLong_le_append limit s (Octets.toList chunk)
    have hle' := tooLong_le_append limit (s ++ Octets.toList chunk) (rest.flatMap Octets.toList)
    rw [faultsAll, attemptsAll, List.filterMap_append, faults_feed h chunk hflow.of_append.1, e₁]
    show _ ++ r₁.faultsAll rest = _
    rw [ih h₁ hflow, List.replicate_append_replicate]
    congr 1
    omega

end Faults

end Intake

end SessionMux
