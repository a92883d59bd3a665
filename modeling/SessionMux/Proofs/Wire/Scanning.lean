import SessionMux.Proofs.Octets
import SessionMux.Proofs.Wire.Lines

/-!
# Scanning a buffer for lines

What one attempt to take an envelope does, said of the bytes in the buffer and not of marks. The
framer remembers in `scanned` how far it has looked; `Framer.Sound` says what makes that memory
true, and under it every attempt answers as if the buffer were looked through from its front.

* `Framer.Sound` — no line feed lies in the scanned part, which is within buffer and limit, and
  while a line is being dropped nothing is remembered.
* **`decode_rescan`** — a sound memory changes no answer.
* `decode_line`, `decode_tooLong`, `decode_unfinished` — an attempt at a line within the limit, at
  a line above it, and at a line that is not complete.
* `decode_discarding_line`, `decode_discarding_unfinished` — an attempt while a line is being
  dropped.
-/

namespace SessionMux

/-! ## Searching for a byte -/

namespace Buffer

/-- A search in a window of a buffer is a search in the bytes of the window. -/
theorem indexOf?_eq (b : Buffer) (x : UInt8) (i stop : Nat) :
    b.indexOf? x i stop = (((b.toList.take stop).drop i).idxOf? x).map (i + ·) := by
  have hwindow : ((Octets.toList b.bytes).take (b.start + stop)).drop (b.start + i)
      = (b.toList.take stop).drop i := by
    rw [toList, List.take_drop, List.drop_drop]
  rw [Buffer.indexOf?, Octets.indexOf?_eq, hwindow, Option.map_map]
  congr 1
  funext k
  show b.start + i + k - b.start = i + k
  omega

/-- A window without the byte yields nothing. -/
theorem indexOf?_of_notMem {x : UInt8} {b : Buffer} {stop : Nat}
    (h : x ∉ b.toList.take stop) (i : Nat) : b.indexOf? x i stop = none := by
  rw [indexOf?_eq, Option.map_eq_none_iff, List.idxOf?_eq_none_iff]
  exact fun hx => h (List.mem_of_mem_drop hx)

/-- The byte that ends a run without it is found from anywhere in the run, if it lies in the
window. -/
theorem indexOf?_line {x : UInt8} {b : Buffer} {line rest : List UInt8} {i stop : Nat}
    (hb : b.toList = line ++ x :: rest) (hline : x ∉ line) (hi : i ≤ line.length)
    (hs : line.length < stop) : b.indexOf? x i stop = some line.length := by
  obtain ⟨k, rfl⟩ : ∃ k, stop = line.length + (k + 1) := ⟨stop - line.length - 1, by omega⟩
  have hwindow : (b.toList.take (line.length + (k + 1))).drop i =
      line.drop i ++ x :: rest.take k := by
    rw [hb, List.take_length_add_append, List.take_succ_cons, List.drop_append_of_le_length hi]
  rw [indexOf?_eq, hwindow, Octets.idxOf?_append_cons fun hx => hline (List.mem_of_mem_drop hx),
    Option.map_some, List.length_drop, Nat.add_sub_cancel' hi]

theorem toList_drop_line {b : Buffer} {line rest : List UInt8} {x : UInt8}
    (hb : b.toList = line ++ x :: rest) : (b.drop (line.length + 1)).toList = rest := by
  rw [toList_drop, hb, List.drop_append, List.drop_eq_nil_of_le (by omega)]
  simp

end Buffer

namespace Framer

/-! ## What the framer remembers -/

/-- What the framer remembers is true of the buffer. -/
structure Sound (f : Framer) (b : Buffer) : Prop where
  le_size : f.scanned ≤ b.size
  le_limit : f.scanned ≤ f.limit
  clean : lineFeed ∉ b.toList.take f.scanned
  fresh : f.discarding = true → f.scanned = 0

/-- A framer that remembers nothing is right about every buffer. -/
theorem sound_of_scanned_eq_zero {f : Framer} (h : f.scanned = 0) (b : Buffer) : f.Sound b where
  le_size := by omega
  le_limit := by omega
  clean := by rw [h]; simp
  fresh := fun _ => h

/-- What is filled in at the back does not make the memory wrong. -/
theorem Sound.append {f : Framer} {b : Buffer} (h : f.Sound b) (chunk : ByteArray) :
    f.Sound (b.append chunk) where
  le_size := by
    rw [Buffer.size_append]
    exact Nat.le_trans h.le_size (Nat.le_add_right _ _)
  le_limit := h.le_limit
  clean := by
    rw [Buffer.toList_append, List.take_append_of_le_length
      (by rw [Buffer.length_toList]; exact h.le_size)]
    exact h.clean
  fresh := h.fresh

/-- The scanned part ends at the latest where the first line does. -/
theorem Sound.scanned_le {f : Framer} {b : Buffer} (h : f.Sound b) {line rest : List UInt8}
    (hb : b.toList = line ++ lineFeed :: rest) : f.scanned ≤ line.length := by
  refine Nat.le_of_not_lt fun hlt => h.clean ?_
  rw [hb, List.mem_take_iff_getElem]
  refine ⟨line.length, ?_, ?_⟩
  · simp only [List.length_append, List.length_cons]
    omega
  · simp

/-- In a sound buffer the line feed of a first line within the limit is found. -/
theorem Sound.find_line {f : Framer} {b : Buffer} (h : f.Sound b) {line rest : List UInt8}
    (hb : b.toList = line ++ lineFeed :: rest) (hline : lineFeed ∉ line)
    (hl : line.length ≤ f.limit) :
    b.indexOf? lineFeed f.scanned (min (f.limit + 1) b.size) = some line.length := by
  have hsize : b.size = line.length + (rest.length + 1) := by
    rw [← Buffer.length_toList, hb, List.length_append, List.length_cons]
  exact Buffer.indexOf?_line hb hline (h.scanned_le hb) (by omega)

/-- Up to the limit there is no line feed to be found in front of a line that is too long. -/
theorem take_window (b : Buffer) (limit : Nat) :
    b.toList.take (min (limit + 1) b.size) = b.toList.take (limit + 1) := by
  rw [← Buffer.length_toList]
  exact (List.take_eq_take_min ..).symm

/-! ## One attempt -/

/-- An attempt, without the bookkeeping that shows it to come to an end. -/
theorem decode_eq (f : Framer) (b : Buffer) :
    f.decode b =
      let stop := min (f.limit + 1) b.size
      match b.indexOf? lineFeed f.scanned stop with
      | some k =>
        if f.discarding then decode { f with scanned := 0, discarding := false } (b.drop (k + 1))
        else
          match Envelope.ofLine (stripReturn (b.take k)) with
          | .ok e => (.envelope e, { f with scanned := 0 }, b.drop (k + 1))
          | .error e =>
            match f.policy with
            | .skip => decode { f with scanned := 0 } (b.drop (k + 1))
            | .stall => (.fault e, { f with scanned := 0 }, b)
      | none =>
        if f.discarding then
          if b.size ≤ stop then (.nothing, { f with scanned := 0 }, b.drop stop)
          else decode { f with scanned := 0 } (b.drop stop)
        else if f.limit < b.size then
          (.fault (.lineTooLong f.limit), { f with scanned := 0, discarding := true }, b)
        else (.nothing, { f with scanned := stop }, b) := by
  rw [decode]
  dsimp only
  split
  · rename_i h
    rewrite [h]
    rfl
  · rename_i h
    rewrite [h]
    rfl

/-- **A sound memory changes no answer**: an attempt goes as if the buffer were looked through from
its front. -/
theorem decode_rescan {f : Framer} {b : Buffer} (h : f.Sound b) :
    f.decode b = { f with scanned := 0 }.decode b := by
  have hfind : b.indexOf? lineFeed f.scanned (min (f.limit + 1) b.size)
      = b.indexOf? lineFeed 0 (min (f.limit + 1) b.size) := by
    by_cases hclean : lineFeed ∈ b.toList.take (f.limit + 1)
    · obtain ⟨line, rest, hline, htake⟩ := Lines.exists_line hclean
      have hb : b.toList = line ++ lineFeed :: (rest ++ b.toList.drop (f.limit + 1)) := by
        rw [← List.cons_append, ← List.append_assoc, ← htake, List.take_append_drop]
      have hlen : line.length ≤ f.limit := by
        have := congrArg List.length htake
        rw [List.length_take, List.length_append, List.length_cons] at this
        omega
      have h0 := (sound_of_scanned_eq_zero (f := { f with scanned := 0 }) rfl b).find_line hb hline hlen
      rw [h.find_line hb hline hlen]
      exact h0.symm
    · rw [← take_window] at hclean
      rw [Buffer.indexOf?_of_notMem hclean, Buffer.indexOf?_of_notMem hclean]
  rw [decode_eq f b, decode_eq { f with scanned := 0 } b]
  simp only [hfind]

/-- **An attempt at a line within the limit** reads the line. -/
theorem decode_line {f : Framer} {b : Buffer} (h : f.Sound b) (hd : f.discarding = false)
    {line rest : List UInt8} (hb : b.toList = line ++ lineFeed :: rest)
    (hline : lineFeed ∉ line) (hl : line.length ≤ f.limit) :
    f.decode b =
      match Envelope.ofLine (Octets.ofList (Lines.withoutReturn line)) with
      | .ok e => (.envelope e, { f with scanned := 0 }, b.drop (line.length + 1))
      | .error e =>
        match f.policy with
        | .skip => { f with scanned := 0 }.decode (b.drop (line.length + 1))
        | .stall => (.fault e, { f with scanned := 0 }, b) := by
  have htake : Octets.toList (b.take line.length) = line := by
    rw [Buffer.toList_take, hb, List.take_left]
  rw [decode_eq]
  simp only [h.find_line hb hline hl, hd, if_neg Bool.false_ne_true, Lines.stripReturn_eq, htake]

/-- **An attempt at a line above the limit** reports it once and keeps the buffer. -/
theorem decode_tooLong {f : Framer} {b : Buffer} (hd : f.discarding = false)
    (hclean : lineFeed ∉ b.toList.take (f.limit + 1)) (hsize : f.limit < b.size) :
    f.decode b = (.fault (.lineTooLong f.limit), { f with scanned := 0, discarding := true }, b) := by
  rw [← take_window] at hclean
  rw [decode_eq]
  simp only [Buffer.indexOf?_of_notMem hclean, hd, if_neg Bool.false_ne_true, if_pos hsize]

/-- **An attempt at a line that is not complete** finds nothing and remembers that it has looked. -/
theorem decode_unfinished {f : Framer} {b : Buffer} (hd : f.discarding = false)
    (hclean : lineFeed ∉ b.toList) (hsize : b.size ≤ f.limit) :
    f.decode b = (.nothing, { f with scanned := b.size }, b) := by
  have hwindow : lineFeed ∉ b.toList.take (min (f.limit + 1) b.size) :=
    fun hm => hclean (List.mem_of_mem_take hm)
  rw [decode_eq]
  simp only [Buffer.indexOf?_of_notMem hwindow, hd, if_neg Bool.false_ne_true,
    if_neg (Nat.not_lt.mpr hsize)]
  rw [show min (f.limit + 1) b.size = b.size from by omega]

/-! ## Dropping a line -/

/-- While a line is being dropped and its line feed is not in reach, a window of it goes. -/
theorem decode_discarding_window {f : Framer} {b : Buffer} (hd : f.discarding = true)
    (hclean : lineFeed ∉ b.toList.take (f.limit + 1)) :
    f.decode b =
      if b.size ≤ f.limit + 1 then (.nothing, { f with scanned := 0 }, b.drop b.size)
      else { f with scanned := 0 }.decode (b.drop (f.limit + 1)) := by
  rw [← take_window] at hclean
  rw [decode_eq]
  simp only [Buffer.indexOf?_of_notMem hclean, hd, if_true]
  by_cases hs : b.size ≤ f.limit + 1
  · rw [show min (f.limit + 1) b.size = b.size from by omega, if_pos (Nat.le_refl _), if_pos hs]
  · rw [show min (f.limit + 1) b.size = f.limit + 1 from by omega, if_neg hs, if_neg hs]

/-- **The rest of a dropped line goes with its line feed**, and the attempt goes on behind it. -/
theorem decode_discarding_line {f : Framer} {b : Buffer} (hd : f.discarding = true)
    (h0 : f.scanned = 0) {line rest : List UInt8} (hb : b.toList = line ++ lineFeed :: rest)
    (hline : lineFeed ∉ line) :
    ∃ b' : Buffer, b'.toList = rest ∧ f.decode b = { f with discarding := false }.decode b' := by
  induction hn : line.length using Nat.strongRecOn generalizing line b with
  | ind n ih =>
    subst hn
    by_cases hl : line.length ≤ f.limit
    · refine ⟨b.drop (line.length + 1), Buffer.toList_drop_line hb, ?_⟩
      rw [decode_eq]
      simp only [(sound_of_scanned_eq_zero h0 b).find_line hb hline hl, hd, if_true]
      rw [h0]
    · -- the line feed lies behind the window: the window goes, and the line is shorter
      have htake : b.toList.take (f.limit + 1) = line.take (f.limit + 1) := by
        rw [hb, List.take_append_of_le_length (by omega)]
      have hdrop : (b.drop (f.limit + 1)).toList = line.drop (f.limit + 1) ++ lineFeed :: rest := by
        rw [Buffer.toList_drop, hb, List.drop_append_of_le_length (by omega)]
      have hsize : f.limit + 1 < b.size := by
        rw [← Buffer.length_toList, hb, List.length_append, List.length_cons]
        omega
      obtain ⟨b', hb', hdec⟩ := ih (line.drop (f.limit + 1)).length
        (by rw [List.length_drop]; omega) hdrop (fun hm => hline (List.mem_of_mem_drop hm)) rfl
      refine ⟨b', hb', ?_⟩
      have hf : { f with scanned := 0 } = f := by rw [← h0]
      rw [decode_discarding_window hd (by rw [htake]; exact fun hm => hline (List.mem_of_mem_take hm)),
        if_neg (by omega), hf, hdec]

/-- **Of a dropped line without its line feed everything goes.** -/
theorem decode_discarding_unfinished {f : Framer} {b : Buffer} (hd : f.discarding = true)
    (h0 : f.scanned = 0) (hclean : lineFeed ∉ b.toList) :
    ∃ b' : Buffer, b'.toList = [] ∧ f.decode b = (.nothing, f, b') := by
  have hf : { f with scanned := 0 } = f := by rw [← h0]
  induction hn : b.size using Nat.strongRecOn generalizing b with
  | ind n ih =>
    subst hn
    rw [decode_discarding_window hd fun hm => hclean (List.mem_of_mem_take hm), hf]
    by_cases hs : b.size ≤ f.limit + 1
    · refine ⟨b.drop b.size, ?_, if_pos hs⟩
      rw [Buffer.toList_drop, ← Buffer.length_toList, List.drop_length]
    · rw [if_neg hs]
      refine ih (b.drop (f.limit + 1)).size ?_ ?_ rfl
      · rw [Buffer.size_drop]
        omega
      · rw [Buffer.toList_drop]
        exact fun hm => hclean (List.mem_of_mem_drop hm)

end Framer

end SessionMux
