import SessionMux.Proofs.Wire.LineEnds

/-!
# One limit at both ends of a wire

Who writes a line holds its length against the limit before anything is written; who reads looks for
the line feed among the first bytes of a buffer, one more than the limit. Both come to the same
verdict on every envelope: what is written is read, and what would be dropped is not written.

* `Framer.Takes`, `Framer.Drops` — what reading a buffer of one line can come to.
* `takes_line`, `drops_line` — a line within the limit is taken, and a line above it dropped.
* **`writes_iff_reads`** — a sender and a fresh receiver with the same limit agree.
-/

namespace SessionMux

open Octets

namespace Framer

/-- The framer hands out `e` for what is in the buffer, uses up all of it, and is then as before. -/
def Takes (f : Framer) (b : Buffer) (e : Envelope) : Prop :=
  ∃ rest, f.decode b = (.envelope e, f, rest) ∧ rest.toList = []

/-- The framer reports what is in the buffer as too long; asked again it uses up all of it, hands out
nothing, and is then as before. -/
def Drops (f : Framer) (b : Buffer) : Prop :=
  ∃ dropping, f.decode b = (.fault (.lineTooLong f.limit), dropping, b) ∧
    ∃ rest, dropping.decode b = (.nothing, f, rest) ∧ rest.toList = []

theorem Takes.not_drops {f : Framer} {b : Buffer} {e : Envelope} (h : f.Takes b e) :
    ¬ f.Drops b := by
  rintro ⟨dropping, hreport, -⟩
  obtain ⟨rest, htake, -⟩ := h
  rw [htake] at hreport
  cases hreport

/-! ## Writing -/

theorem encodeTo_of_le {f : Framer} {e : Envelope} (h : e.line.length ≤ f.limit) (out : Buffer) :
    f.encodeTo e out = (.ok (), out.append (e.toLine.push '\n').toUTF8) := by
  have henc : f.encode e = .ok (e.toLine.push '\n') := if_neg (Nat.not_lt.mpr h)
  rw [encodeTo, henc]

theorem encodeTo_of_lt {f : Framer} {e : Envelope} (h : f.limit < e.line.length) (out : Buffer) :
    f.encodeTo e out = (.error (.messageTooLarge e.line.length f.limit), out) := by
  have henc : f.encode e = .error (.messageTooLarge e.line.length f.limit) := if_pos h
  rw [encodeTo, henc]

/-! ## Reading -/

section Reading

variable {f : Framer} {b : Buffer} {line : List UInt8} (hd : f.discarding = false)
  (h0 : f.scanned = 0) (hb : b.toList = line ++ [lineFeed]) (hline : lineFeed ∉ line)

include hd h0 hb hline

/-- A line within the limit that is an envelope is taken. -/
theorem takes_line {e : Envelope} (hl : line.length ≤ f.limit)
    (he : Envelope.ofLine (ofList (Lines.withoutReturn line)) = .ok e) : f.Takes b e := by
  have hf : { f with scanned := 0 } = f := by rw [← h0]
  have hdec := decode_line (sound_of_scanned_eq_zero h0 b) hd hb hline hl
  simp only [he, hf] at hdec
  exact ⟨b.drop (line.length + 1), hdec, Buffer.toList_drop_line hb⟩

/-- A line above the limit is dropped, whatever it is. -/
theorem drops_line (hl : f.limit < line.length) : f.Drops b := by
  have hsize : f.limit < b.size := by
    rw [← Buffer.length_toList, hb, List.length_append]
    omega
  have hclean : lineFeed ∉ b.toList.take (f.limit + 1) := by
    rw [hb, List.take_append_of_le_length hl]
    exact fun hm => hline (List.mem_of_mem_take hm)
  obtain ⟨rest, hrest, hdrop⟩ := decode_discarding_line
    (f := { f with scanned := 0, discarding := true }) rfl rfl hb hline
  have hfresh : { { f with scanned := 0, discarding := true } with discarding := false } = f := by
    rw [← hd, ← h0]
  have hempty : rest.size = 0 := by rw [← Buffer.length_toList, hrest, List.length_nil]
  -- behind the dropped line the buffer is empty, and an empty buffer leaves nothing to remember
  have hrescan : f.decode rest = (.nothing, f, rest) := by
    rw [decode_unfinished hd (by rw [hrest]; exact List.not_mem_nil) (by omega), hempty, ← h0]
  rw [hfresh, hrescan] at hdrop
  exact ⟨_, decode_tooLong hd hclean hsize, rest, hdrop, hrest⟩

end Reading

/-! ## Both ends -/

/-- **Sender and receiver agree** about an envelope: the sender writes behind what is in `out`, and
the receiver finds the line of the envelope and its line feed in `inbox`. -/
structure Agree (sender receiver : Framer) (e : Envelope) (out inbox : Buffer) : Prop where
  /-- The sender accepts the envelope exactly if the receiver takes it from its line. -/
  accepts_iff : (sender.encodeTo e out).1 = .ok () ↔ receiver.Takes inbox e
  /-- The sender finds the envelope too large exactly if the receiver drops its line. -/
  refuses_iff : (∃ size max, (sender.encodeTo e out).1 = .error (.messageTooLarge size max)) ↔
    receiver.Drops inbox
  /-- There is no third verdict. -/
  decided : receiver.Takes inbox e ∨ receiver.Drops inbox
  /-- What an accepted envelope adds is what the receiver reads. -/
  written : (sender.encodeTo e out).1 = .ok () →
    (sender.encodeTo e out).2.toList = out.toList ++ inbox.toList
  /-- What is refused leaves no trace, and is refused for its length. -/
  refused : ∀ fault, (sender.encodeTo e out).1 = .error fault →
    sender.encodeTo e out = (.error (.messageTooLarge e.line.length sender.limit), out)

/-- **What one end writes the other end reads**, whatever the limit, the policies and the envelope:
the sender may have been used before, and the receiver is fresh. -/
theorem writes_iff_reads (sender : Framer) (hlimit : sender.limit < 2 ^ 64)
    (policy : MalformedLines) (e : Envelope) (out : Buffer) {inbox : Buffer}
    (hinbox : inbox.toList = e.line ++ [lineFeed]) :
    Agree sender { limit := sender.limit, policy := policy } e out inbox := by
  let receiver : Framer := { limit := sender.limit, policy := policy }
  have hline := e.lineFeed_notMem_line
  by_cases hl : e.line.length ≤ sender.limit
  · have hsend := encodeTo_of_le hl out
    have hread : Envelope.ofLine (ofList (Lines.withoutReturn e.line)) = .ok e := by
      rw [e.withoutReturn_line]
      exact Envelope.ofLine_line (Envelope.fits_of_line (Nat.lt_of_le_of_lt hl hlimit))
    have htake : receiver.Takes inbox e := takes_line rfl rfl hinbox hline hl hread
    refine ⟨?_, ?_, .inl htake, ?_, ?_⟩
    · rw [hsend]
      exact ⟨fun _ => htake, fun _ => rfl⟩
    · rw [hsend]
      exact ⟨nofun, fun h => absurd h htake.not_drops⟩
    · intro _
      rw [hsend, hinbox, Buffer.toList_append, toList_push_lineFeed]
      rfl
    · intro fault h
      rw [hsend] at h
      cases h
  · have hlong := Nat.lt_of_not_le hl
    have hsend := encodeTo_of_lt hlong out
    have hdrop : receiver.Drops inbox := drops_line rfl rfl hinbox hline hlong
    refine ⟨?_, ?_, .inr hdrop, ?_, fun _ _ => hsend⟩
    · rw [hsend]
      exact ⟨nofun, fun h => absurd hdrop h.not_drops⟩
    · rw [hsend]
      exact ⟨fun _ => hdrop, fun _ => ⟨_, _, rfl⟩⟩
    · intro h
      rw [hsend] at h
      cases h

/-- The smallest envelope has a line of 32 bytes: at that limit it is written and read, and one byte
below it is refused and dropped. -/
theorem writes_iff_reads_smallest :
    let inbox : Buffer := ({} : Buffer).append (ofList (Envelope.smallest.line ++ [lineFeed]))
    (({ limit := 32 } : Framer).encodeTo .smallest {}).1 = .ok () ∧
      Takes { limit := 32, policy := .stall } inbox .smallest ∧
      (({ limit := 31 } : Framer).encodeTo .smallest {}).1 = .error (.messageTooLarge 32 31) ∧
      Drops { limit := 31, policy := .stall } inbox := by
  intro inbox
  have hinbox : inbox.toList = Envelope.smallest.line ++ [lineFeed] := by decide +kernel
  have hat := writes_iff_reads { limit := 32 } (by decide) .stall .smallest {} hinbox
  have hbelow := writes_iff_reads { limit := 31 } (by decide) .stall .smallest {} hinbox
  have hlength : Envelope.smallest.line.length = 32 := by decide +kernel
  have hsend := encodeTo_of_le (f := { limit := 32 }) (Nat.le_of_eq hlength) {}
  have hrefuse := encodeTo_of_lt (f := { limit := 31 }) (Nat.le_of_eq hlength.symm) {}
  rw [hlength] at hrefuse
  refine ⟨congrArg Prod.fst hsend, hat.accepts_iff.mp (congrArg Prod.fst hsend),
    congrArg Prod.fst hrefuse, hbelow.refuses_iff.mp ⟨_, _, congrArg Prod.fst hrefuse⟩⟩

end Framer

end SessionMux
