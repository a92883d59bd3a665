import SessionMux.Proofs.Wire.Attempts
import SessionMux.Proofs.Wire.RoundTrip

/-!
# The two ends of a line

A line ends with a line feed, or with a carriage return and a line feed. The carriage return is
stripped before the line is read as an envelope, but the limit is held against all bytes before the
line feed, the carriage return included. So the two ends are read alike for lines below the limit,
and not for a line of exactly `limit` bytes.

* `Intake.ReadsAs` — what a run of feeds comes to: envelopes, faults, and nothing left over.
* `readsAs_line`, `readsAs_long` — a stream that is one line, within the limit and above it.
* **`readsAs_lineEnds`** — both ends of a line that carries an envelope, however the line is cut.
* `not_readsAs_carriageReturn` — at the limit the carriage return costs the line.
-/

namespace SessionMux

open Octets Lines

/-- The smallest envelope: its line has 32 bytes. -/
def Envelope.smallest : Envelope := ⟨0, 0, ByteArray.empty, ByteArray.empty⟩

namespace Lines

/-- One carriage return before the line feed does not count. -/
theorem withoutReturn_carriageReturn (line : List UInt8) :
    withoutReturn (line ++ [carriageReturn]) = line := by
  rw [withoutReturn, if_pos List.getLast?_concat, List.dropLast_concat]

theorem envelope?_carriageReturn (e : Envelope) :
    envelope? (e.line ++ [carriageReturn]) = envelope? e.line := by
  rw [envelope?, envelope?, withoutReturn_carriageReturn, e.withoutReturn_line]

theorem lineFeed_notMem_carriageReturn (e : Envelope) : lineFeed ∉ e.line ++ [carriageReturn] :=
  List.not_mem_append e.lineFeed_notMem_line (by decide)

end Lines

namespace Intake

/-- What a run of feeds comes to, when nothing is left over at its end. -/
structure ReadsAs (r : Intake) (chunks : List ByteArray) (es : List Envelope)
    (faults : List WireFault) : Prop where
  /-- These envelopes have been handed out. -/
  envelopes : (r.feedAll chunks).1 = es
  /-- These faults have been reported on the way. -/
  faults : r.faultsAll chunks = faults
  /-- The buffer is empty. -/
  empty : (r.feedAll chunks).2.buffer.toList = []
  /-- No line has stalled the intake. -/
  going : (r.feedAll chunks).2.stalled = false

/-! ## A stream of one line -/

section OneLine

variable {limit : Nat} {line : List UInt8} {chunks : List ByteArray}

/-- A stream that flows and ends with a line feed leaves nothing over. -/
theorem readsAs_stream (policy : MalformedLines) {s : List UInt8} (hs : chunks.flatMap toList = s)
    (hflow : Flows policy limit s) (hend : unfinished s = []) :
    ReadsAs (fresh limit policy) chunks (envelopes limit s) (reports limit (tooLong limit s)) := by
  subst hs
  have hfresh := holds_fresh limit policy
  obtain ⟨es, r, hread, henv, h⟩ := feedAll_holds chunks hfresh hflow
  have hfaults := faults_attemptsAll chunks hfresh hflow
  rw [List.nil_append] at henv h hfaults
  refine ⟨?_, ?_, ?_, ?_⟩
  · rw [hread]
    exact henv.symm
  · rw [hfaults]
    rfl
  · rw [hread, h.bytes, hend, ite_self]
  · rw [hread]
    exact h.going

/-- A line within the limit that is an envelope is handed out as it. -/
theorem readsAs_line (policy : MalformedLines) {e : Envelope} (hline : lineFeed ∉ line)
    (hl : line.length ≤ limit) (he : envelope? line = some e)
    (hs : chunks.flatMap toList = line ++ [lineFeed]) :
    ReadsAs (fresh limit policy) chunks [e] [] := by
  have hnil : lineFeed ∉ ([] : List UInt8) := List.not_mem_nil
  have hflow : Flows policy limit (line ++ [lineFeed]) := by
    intro _ x hx
    rw [within_line hline hl, within_of_notMem limit hnil, List.mem_singleton] at hx
    rw [hx, he]
    rfl
  have hread := readsAs_stream policy hs hflow (unfinished_line hline [])
  rw [envelopes_line hline hl, he, envelopes_of_notMem limit hnil, tooLong_line hline hl] at hread
  exact hread

/-- A line above the limit is reported once and nothing else comes of it. -/
theorem readsAs_long (policy : MalformedLines) (hline : lineFeed ∉ line)
    (hl : limit < line.length) (hs : chunks.flatMap toList = line ++ [lineFeed]) :
    ReadsAs (fresh limit policy) chunks [] [.lineTooLong limit] := by
  have hnil : lineFeed ∉ ([] : List UInt8) := List.not_mem_nil
  have hflow : Flows policy limit (line ++ [lineFeed]) := by
    intro _ x hx
    rw [within_long hline hl, within_of_notMem limit hnil] at hx
    cases hx
  have hread := readsAs_stream policy hs hflow (unfinished_line hline [])
  rw [envelopes_long hline hl, envelopes_of_notMem limit hnil, tooLong_long hline hl] at hread
  exact hread

end OneLine

/-! ## Both ends of a line -/

/-- **Both ends of a line.** Whatever the limit, the policy, and the envelope whose line is within
the limit, and however the bytes are cut: ended by a line feed the line is read as its envelope.
Ended by a carriage return and a line feed it is read as its envelope if it is below the limit; a
line of exactly `limit` bytes is then reported as too long, and its envelope is lost. Nothing is left
in the buffer either way. -/
theorem readsAs_lineEnds {limit : Nat} (hlimit : limit < 2 ^ 64) (policy : MalformedLines)
    (e : Envelope) (hfit : e.line.length ≤ limit) (chunks : List ByteArray) :
    (chunks.flatMap toList = e.line ++ [lineFeed] →
      ReadsAs (fresh limit policy) chunks [e] []) ∧
    (chunks.flatMap toList = e.line ++ [carriageReturn, lineFeed] →
      if e.line.length < limit then ReadsAs (fresh limit policy) chunks [e] []
      else ReadsAs (fresh limit policy) chunks [] [.lineTooLong limit]) := by
  have henvelope : envelope? e.line = some e :=
    Envelope.envelope?_line (Envelope.fits_of_line (Nat.lt_of_le_of_lt hfit hlimit))
  have hlength : (e.line ++ [carriageReturn]).length = e.line.length + 1 := List.length_append
  constructor
  · exact readsAs_line policy e.lineFeed_notMem_line hfit henvelope
  · intro hs
    rw [List.append_cons] at hs
    have hline := lineFeed_notMem_carriageReturn e
    split
    · exact readsAs_line policy hline (by omega) ((envelope?_carriageReturn e).trans henvelope) hs
    · exact readsAs_long policy hline (by omega) hs

/-- The smallest envelope, the limit being as long as its line, and the carriage return in a chunk of
its own. -/
theorem readsAs_lineEnds_smallest :
    let line := Envelope.smallest.line
    ReadsAs (fresh 32 .stall) [ofList line, ofList [lineFeed]] [.smallest] [] ∧
      ReadsAs (fresh 32 .stall) [ofList line, ofList [carriageReturn], ofList [lineFeed]] []
        [.lineTooLong 32] ∧
      ReadsAs (fresh 33 .stall) [ofList line, ofList [carriageReturn], ofList [lineFeed]]
        [.smallest] [] := by
  intro line
  refine ⟨?_, ?_, ?_⟩
  · exact (readsAs_lineEnds (by decide) .stall .smallest (by decide +kernel)
      [ofList line, ofList [lineFeed]]).1 (by decide +kernel)
  · have h := (@readsAs_lineEnds 32 (by decide) .stall .smallest (by decide +kernel)
      [ofList line, ofList [carriageReturn], ofList [lineFeed]]).2 (by decide +kernel)
    rwa [if_neg (by decide +kernel)] at h
  · have h := (@readsAs_lineEnds 33 (by decide) .stall .smallest (by decide +kernel)
      [ofList line, ofList [carriageReturn], ofList [lineFeed]]).2 (by decide +kernel)
    rwa [if_pos (by decide +kernel)] at h

/-- A line within the limit is not read as its envelope when a carriage return stands before its line
feed: here the limit is 32 bytes, and so long is the line. -/
theorem not_readsAs_carriageReturn :
    Envelope.smallest.line.length ≤ 32 ∧
      ¬ ReadsAs (fresh 32 .skip)
        [ofList (Envelope.smallest.line ++ [carriageReturn, lineFeed])] [.smallest] [] := by
  refine ⟨by decide +kernel, fun h => ?_⟩
  have hlength := congrArg List.length h.envelopes
  revert hlength
  decide +kernel

end Intake

end SessionMux
