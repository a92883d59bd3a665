import SessionMux.Proofs.Wire.Scanning

/-!
# What the framer remembers, over a whole use

A framer keeps how far it has looked while its buffer is filled, written to and read from, and while
the framer is copied. The memory stays true through all of that, so that it saves work and does
nothing else: a framer that forgets before every attempt gives the same answers.

* `Framer.decodeChecked` — an attempt in which every access must lie in the buffer, and lengths have
  64 bits.
* `LineDesk`, `Handling`, `LineDesk.run` — a framer with its buffer, what is done with it, and a run.
* `Sound.decode` — an attempt leaves a true memory.
* `decodeChecked_eq` — under a true memory no access falls outside.
* **`incremental_run`** — in every run the memory is true, no access falls outside, and the answers
  are those of a framer without a memory.
-/

namespace SessionMux

/-! ## Accesses that are checked -/

/-- The largest number of 64 bits: no buffer and no limit is larger. -/
def largestLength : Nat := UInt64.size - 1

namespace Buffer

/-- The bytes from place `i` up to place `stop`, if there are so many. -/
def slice? (b : Buffer) (i stop : Nat) : Option (List UInt8) :=
  if i ≤ stop ∧ stop ≤ b.size then some ((b.toList.take stop).drop i) else none

theorem slice?_of_le {b : Buffer} {i stop : Nat} (hi : i ≤ stop) (hs : stop ≤ b.size) :
    b.slice? i stop = some ((b.toList.take stop).drop i) := if_pos ⟨hi, hs⟩

end Buffer

namespace Framer

open Octets

/-- An attempt to take an envelope in which every access is checked: there is no result where a
slice, or a step forward in the buffer, would reach beyond its end. One more than the limit is a
number of 64 bits, and stays at the largest of them. -/
def decodeChecked (f : Framer) (b : Buffer) : Option (Framed × Framer × Buffer) :=
  let stop := min (min (f.limit + 1) largestLength) b.size
  match b.slice? f.scanned stop with
  | none => none
  | some window =>
    match window.idxOf? lineFeed with
    | some place =>
      let k := f.scanned + place
      if f.discarding then
        if _h : k + 1 ≤ b.size then
          decodeChecked { f with scanned := 0, discarding := false } (b.drop (k + 1))
        else none
      else
        match b.slice? 0 k with
        | none => none
        | some line =>
          match Envelope.ofLine (ofList (Lines.withoutReturn line)) with
          | .ok e =>
            if k + 1 ≤ b.size then some (.envelope e, { f with scanned := 0 }, b.drop (k + 1))
            else none
          | .error e =>
            match f.policy with
            | .skip =>
              if _h : k + 1 ≤ b.size then decodeChecked { f with scanned := 0 } (b.drop (k + 1))
              else none
            | .stall => some (.fault e, { f with scanned := 0 }, b)
    | none =>
      if f.discarding then
        if stop ≤ b.size then
          if _h : (b.drop stop).size = 0 then some (.nothing, { f with scanned := 0 }, b.drop stop)
          else decodeChecked { f with scanned := 0 } (b.drop stop)
        else none
      else if f.limit < b.size then
        some (.fault (.lineTooLong f.limit), { f with scanned := 0, discarding := true }, b)
      else some (.nothing, { f with scanned := stop }, b)
termination_by b.size
decreasing_by
  · rw [Buffer.size_drop]
    omega
  · rw [Buffer.size_drop]
    omega
  · have : 0 < largestLength := by decide
    rw [Buffer.size_drop] at _h ⊢
    omega

/-! ## One attempt -/

/-- Where a search from the end of a true memory finds nothing, there is no line feed in the whole
window. -/
theorem Sound.clean_of_none {f : Framer} {b : Buffer} (h : f.Sound b) {stop : Nat}
    (hnone : b.indexOf? lineFeed f.scanned stop = none) : lineFeed ∉ b.toList.take stop := by
  rw [Buffer.indexOf?_eq, Option.map_eq_none_iff, List.idxOf?_eq_none_iff] at hnone
  intro hm
  rw [← List.take_append_drop f.scanned (b.toList.take stop), List.mem_append, List.take_take] at hm
  rcases hm with hm | hm
  · rw [Nat.min_comm, ← List.take_take] at hm
    exact h.clean (List.mem_of_mem_take hm)
  · exact hnone hm

/-- **An attempt leaves a true memory**, whatever it comes to. -/
theorem Sound.decode {f : Framer} {b : Buffer} (h : f.Sound b) :
    (f.decode b).2.1.Sound (f.decode b).2.2 := by
  fun_induction Framer.decode f b with
  | case1 f b stop k hk hd ih => exact ih (sound_of_scanned_eq_zero rfl _)
  | case2 f b stop k hk hd e he => exact sound_of_scanned_eq_zero rfl _
  | case3 f b stop k hk hd e he hp ih => exact ih (sound_of_scanned_eq_zero rfl _)
  | case4 f b stop k hk hd e he hp => exact sound_of_scanned_eq_zero rfl _
  | case5 f b stop hk hd hs => exact sound_of_scanned_eq_zero rfl _
  | case6 f b stop hk hd hs ih => exact ih (sound_of_scanned_eq_zero rfl _)
  | case7 f b stop hk hd hl => exact sound_of_scanned_eq_zero rfl _
  | case8 f b stop hk hd hl =>
    -- only here is anything remembered: the whole buffer, which is within the limit
    have hstop : stop = b.size := Nat.min_eq_right (by omega)
    refine ⟨Nat.min_le_right _ _, ?_, h.clean_of_none hk, fun hd' => absurd hd' hd⟩
    show stop ≤ f.limit
    omega

/-- Under a true memory the checked attempt goes by the same branches, and every slice and every step
forward is there. -/
theorem Sound.decodeChecked_branches {f : Framer} {b : Buffer} (h : f.Sound b)
    (hsize : b.size ≤ largestLength) :
    f.decodeChecked b =
      let stop := min (f.limit + 1) b.size
      match b.indexOf? lineFeed f.scanned stop with
      | some k =>
        if f.discarding then
          decodeChecked { f with scanned := 0, discarding := false } (b.drop (k + 1))
        else
          match Envelope.ofLine (stripReturn (b.take k)) with
          | .ok e => some (.envelope e, { f with scanned := 0 }, b.drop (k + 1))
          | .error e =>
            match f.policy with
            | .skip => decodeChecked { f with scanned := 0 } (b.drop (k + 1))
            | .stall => some (.fault e, { f with scanned := 0 }, b)
      | none =>
        if f.discarding then
          if b.size ≤ stop then some (.nothing, { f with scanned := 0 }, b.drop stop)
          else decodeChecked { f with scanned := 0 } (b.drop stop)
        else if f.limit < b.size then
          some (.fault (.lineTooLong f.limit), { f with scanned := 0, discarding := true }, b)
        else some (.nothing, { f with scanned := stop }, b) := by
  have hstop : min (min (f.limit + 1) largestLength) b.size = min (f.limit + 1) b.size := by omega
  have hle : f.scanned ≤ min (f.limit + 1) b.size :=
    Nat.le_min.mpr ⟨Nat.le_succ_of_le h.le_limit, h.le_size⟩
  have hwindow := Buffer.slice?_of_le hle (Nat.min_le_right (f.limit + 1) b.size)
  have hfind := b.indexOf?_eq lineFeed f.scanned (min (f.limit + 1) b.size)
  rw [decodeChecked]
  simp only [hstop, hwindow]
  cases hplace : ((b.toList.take (min (f.limit + 1) b.size)).drop f.scanned).idxOf? lineFeed with
  | some place =>
    rw [hplace] at hfind
    have hk : f.scanned + place + 1 ≤ b.size := (Buffer.lt_of_indexOf? hfind).2.1
    have hline := Buffer.slice?_of_le (Nat.zero_le _) (Nat.le_of_succ_le hk)
    have hstrip : stripReturn (b.take (f.scanned + place)) =
        ofList (Lines.withoutReturn (b.toList.take (f.scanned + place))) := by
      rw [Lines.stripReturn_eq, Buffer.toList_take]
    simp only [hfind, Option.map_some, dif_pos hk, if_pos hk, hline, hstrip, List.drop_zero]
  | none =>
    rw [hplace] at hfind
    have hempty : (b.drop (min (f.limit + 1) b.size)).size = 0 ↔
        b.size ≤ min (f.limit + 1) b.size := by
      rw [Buffer.size_drop]
      omega
    simp only [hfind, Option.map_none, if_pos (Nat.min_le_right (f.limit + 1) b.size), hempty]
    rfl

/-- **No access falls outside** under a true memory, and the checked attempt is the attempt. -/
theorem Sound.decodeChecked_eq {f : Framer} {b : Buffer} (h : f.Sound b)
    (hsize : b.size ≤ largestLength) : f.decodeChecked b = some (f.decode b) := by
  have hdrop : ∀ {b : Buffer} (n : Nat), b.size ≤ largestLength → (b.drop n).size ≤ largestLength :=
    fun n hb => by
      rw [Buffer.size_drop]
      exact Nat.le_trans (Nat.sub_le _ _) hb
  fun_induction Framer.decode f b with
  | case1 f b stop k hk hd ih =>
    rw [h.decodeChecked_branches hsize]
    simp only [stop, hk, if_pos hd]
    exact ih (sound_of_scanned_eq_zero rfl _) (hdrop _ hsize)
  | case2 f b stop k hk hd e he =>
    rw [h.decodeChecked_branches hsize]
    simp only [stop, hk, if_neg hd, he]
  | case3 f b stop k hk hd e he hp ih =>
    rw [h.decodeChecked_branches hsize]
    simp only [stop, hk, if_neg hd, he, hp]
    simpa only [hp] using ih (sound_of_scanned_eq_zero rfl _) (hdrop _ hsize)
  | case4 f b stop k hk hd e he hp =>
    rw [h.decodeChecked_branches hsize]
    simp only [stop, hk, if_neg hd, he, hp]
  | case5 f b stop hk hd hs =>
    rw [h.decodeChecked_branches hsize]
    simp only [stop, hk, if_pos hd, if_pos hs]
  | case6 f b stop hk hd hs ih =>
    rw [h.decodeChecked_branches hsize]
    simp only [stop, hk, if_pos hd, if_neg hs]
    exact ih (sound_of_scanned_eq_zero rfl _) (hdrop _ hsize)
  | case7 f b stop hk hd hl =>
    rw [h.decodeChecked_branches hsize]
    simp only [stop, hk, if_neg hd, if_pos hl]
  | case8 f b stop hk hd hl =>
    rw [h.decodeChecked_branches hsize]
    simp only [stop, hk, if_neg hd, if_neg hl]

theorem limit_decode (f : Framer) (b : Buffer) : (f.decode b).2.1.limit = f.limit := by
  fun_induction Framer.decode f b with
  | case1 f b stop k hk hd ih => exact ih
  | case3 f b stop k hk hd e he hp ih => exact ih
  | case6 f b stop hk hd hs ih => exact ih
  | _ => rfl

/-- What stands last in a buffer changes the answer, not what the attempt leaves behind. -/
theorem decodeLast_snd (f : Framer) (b : Buffer) : (f.decodeLast b).2 = (f.decode b).2 := by
  rw [decodeLast]
  rcases f.decode b with ⟨answer, f', b'⟩
  cases answer with
  | nothing => by_cases hb : b'.size = 0 <;> simp only [hb, if_true, if_false]
  | envelope e => rfl
  | fault e => rfl

/-- What the attempt comes to is all that counts for the last one. -/
theorem decodeLast_congr {f g : Framer} {b : Buffer} (h : f.decode b = g.decode b) :
    f.decodeLast b = g.decodeLast b := by
  rw [decodeLast, decodeLast, h]

/-- The framer without its memory. -/
def forget (f : Framer) : Framer := { f with scanned := 0 }

/-- A copy of the framer, with its memory. -/
def copy (f : Framer) : Framer := ⟨f.limit, f.policy, f.scanned, f.discarding⟩

theorem limit_of_forget_eq {f g : Framer} (h : f.forget = g.forget) : f.limit = g.limit :=
  show f.forget.limit = g.forget.limit from congrArg Framer.limit h

theorem discarding_of_forget_eq {f g : Framer} (h : f.forget = g.forget) :
    f.discarding = g.discarding :=
  show f.forget.discarding = g.forget.discarding from congrArg Framer.discarding h

/-- Only the limit counts in writing. -/
theorem encodeTo_congr {f g : Framer} (h : f.limit = g.limit) (e : Envelope) (b : Buffer) :
    f.encodeTo e b = g.encodeTo e b := by
  rw [encodeTo, encodeTo, encode, encode, h]

end Framer

/-! ## Runs -/

/-- A framer with the buffer that it reads from and writes to. -/
structure LineDesk where
  framer : Framer
  buffer : Buffer := {}

/-- What is done with a framer and its buffer. -/
inductive Handling where
  /-- Bytes are filled in. -/
  | fill (chunk : ByteArray)
  /-- The line of an envelope is written into the same buffer, or refused. -/
  | write (e : Envelope)
  /-- The framer is replaced by a copy. -/
  | copy
  | read
  /-- The buffer is read as one that will not be filled any more. -/
  | readLast

/-- What a handling answers. -/
inductive Response where
  | done
  | written (result : Except WireFault Unit)
  | read (framed : Framed)

namespace LineDesk

/-- One handling; `prepare` is what becomes of the framer before an attempt. -/
def handle (prepare : Framer → Framer) (d : LineDesk) : Handling → Response × LineDesk
  | .fill chunk => (.done, { d with buffer := d.buffer.append chunk })
  | .write e =>
    let (result, buffer) := d.framer.encodeTo e d.buffer
    (.written result, { d with buffer })
  | .copy => (.done, { d with framer := d.framer.copy })
  | .read =>
    let (framed, framer, buffer) := (prepare d.framer).decode d.buffer
    (.read framed, ⟨framer, buffer⟩)
  | .readLast =>
    let (framed, framer, buffer) := (prepare d.framer).decodeLast d.buffer
    (.read framed, ⟨framer, buffer⟩)

/-- One handling after another, with the answers in order. -/
def run (prepare : Framer → Framer) (d : LineDesk) : List Handling → List Response × LineDesk
  | [] => ([], d)
  | h :: rest =>
    let (response, d) := d.handle prepare h
    let (responses, d) := d.run prepare rest
    (response :: responses, d)

/-- A fresh framer before an empty buffer. -/
def fresh (limit : Nat) (policy : MalformedLines) : LineDesk where
  framer := { limit := limit, policy := policy }

/-! ### One handling -/

section Handlings

variable {d d' : LineDesk}

/-- **Every handling leaves a true memory.** -/
theorem sound_handle (h : d.framer.Sound d.buffer) (x : Handling) :
    (d.handle id x).2.framer.Sound (d.handle id x).2.buffer := by
  cases x with
  | fill chunk => exact h.append chunk
  | write e =>
    show d.framer.Sound (d.framer.encodeTo e d.buffer).2
    rw [Framer.encodeTo]
    split
    · exact h.append _
    · exact h
  | copy => exact h
  | read => exact h.decode
  | readLast =>
    show (d.framer.decodeLast d.buffer).2.1.Sound (d.framer.decodeLast d.buffer).2.2
    rw [Framer.decodeLast_snd]
    exact h.decode

theorem limit_handle (d : LineDesk) (x : Handling) :
    (d.handle id x).2.framer.limit = d.framer.limit := by
  cases x with
  | read => exact Framer.limit_decode d.framer d.buffer
  | readLast =>
    show (d.framer.decodeLast d.buffer).2.1.limit = d.framer.limit
    rw [Framer.decodeLast_snd]
    exact Framer.limit_decode d.framer d.buffer
  | _ => rfl

/-- A refused envelope leaves the framer and the buffer as they are. -/
theorem eq_of_refused {e : Envelope} {fault : WireFault} {d₁ : LineDesk}
    (h : d.handle id (.write e) = (.written (.error fault), d₁)) : d₁ = d := by
  have hwrite : d.handle id (.write e) =
      (.written (d.framer.encodeTo e d.buffer).1, ⟨d.framer, (d.framer.encodeTo e d.buffer).2⟩) := rfl
  rw [hwrite, Framer.encodeTo] at h
  split at h
  · simp at h
  · exact (congrArg Prod.snd h).symm

/-- Two framers with their buffers are alike up to what the framers remember. -/
def Alike (d d' : LineDesk) : Prop := d.buffer = d'.buffer ∧ d.framer.forget = d'.framer.forget

/-- **A true memory changes no answer**, and leaves nothing else behind than no memory does. -/
theorem Alike.handle (hd : d.framer.Sound d.buffer) (h : Alike d d') (x : Handling) :
    (d.handle id x).1 = (d'.handle Framer.forget x).1 ∧
      Alike (d.handle id x).2 (d'.handle Framer.forget x).2 := by
  obtain ⟨hbuffer, hforget⟩ := h
  have hdecode : d.framer.decode d.buffer = d'.framer.forget.decode d'.buffer := by
    rw [Framer.decode_rescan hd, ← hbuffer, ← hforget]
    rfl
  cases x with
  | fill chunk => exact ⟨rfl, congrArg (·.append chunk) hbuffer, hforget⟩
  | write e =>
    have hencode := Framer.encodeTo_congr (Framer.limit_of_forget_eq hforget) e d.buffer
    rw [hbuffer] at hencode
    refine ⟨?_, ?_, hforget⟩
    · show Response.written (d.framer.encodeTo e d.buffer).1 = _
      rw [hbuffer, hencode]
      rfl
    · show (d.framer.encodeTo e d.buffer).2 = _
      rw [hbuffer, hencode]
      rfl
  | copy => exact ⟨rfl, hbuffer, hforget⟩
  | read =>
    simp only [LineDesk.handle, id, hdecode, Alike, and_self]
  | readLast =>
    have hlast : d.framer.decodeLast d.buffer = d'.framer.forget.decodeLast d'.buffer := by
      rw [hbuffer] at hdecode ⊢
      exact Framer.decodeLast_congr hdecode
    simp only [LineDesk.handle, id, hlast, Alike, and_self]

/-! ### A run -/

theorem sound_run (h : d.framer.Sound d.buffer) (xs : List Handling) :
    (d.run id xs).2.framer.Sound (d.run id xs).2.buffer := by
  induction xs generalizing d with
  | nil => exact h
  | cons x xs ih => exact ih (sound_handle h x)

theorem Alike.run (hd : d.framer.Sound d.buffer) (h : Alike d d') (xs : List Handling) :
    (d.run id xs).1 = (d'.run Framer.forget xs).1 ∧
      Alike (d.run id xs).2 (d'.run Framer.forget xs).2 := by
  induction xs generalizing d d' with
  | nil => exact ⟨rfl, h⟩
  | cons x xs ih =>
    obtain ⟨hanswer, hafter⟩ := h.handle hd x
    obtain ⟨hanswers, hend⟩ := ih (sound_handle hd x) hafter
    exact ⟨List.cons_eq_cons.mpr ⟨hanswer, hanswers⟩, hend⟩

theorem limit_run (d : LineDesk) (xs : List Handling) :
    (d.run id xs).2.framer.limit = d.framer.limit := by
  induction xs generalizing d with
  | nil => rfl
  | cons x xs ih => exact (ih (d.handle id x).2).trans (limit_handle d x)

/-- **A run with a memory**, against the same run without one: the answers of each, with the framer
and the buffer that it leaves. -/
structure Incremental (limit : Nat) (remembering forgetting : List Response × LineDesk) : Prop where
  /-- The memory ends within the buffer and within the limit. -/
  scanned_le : remembering.2.framer.scanned ≤ min remembering.2.buffer.size limit
  /-- There is no line feed in front of its end. -/
  clean : lineFeed ∉ remembering.2.buffer.toList.take remembering.2.framer.scanned
  /-- While a line is being dropped nothing is remembered. -/
  scanned_eq_zero : remembering.2.framer.discarding = true → remembering.2.framer.scanned = 0
  /-- In the next attempt no slice and no step forward falls outside the buffer. -/
  inRange : remembering.2.buffer.size ≤ largestLength →
    remembering.2.framer.decodeChecked remembering.2.buffer =
      some (remembering.2.framer.decode remembering.2.buffer)
  /-- All answers are the same, … -/
  answers : remembering.1 = forgetting.1
  /-- … and so is the buffer that is left … -/
  buffer : remembering.2.buffer = forgetting.2.buffer
  /-- … and whether a line is being dropped. -/
  discarding : remembering.2.framer.discarding = forgetting.2.framer.discarding
  /-- An envelope that is refused next leaves no trace. -/
  refused : ∀ e fault d,
    remembering.2.handle id (.write e) = (.written (.error fault), d) → d = remembering.2

end Handlings

/-- **A framer that remembers how far it has looked answers like one that looks again every time**,
whatever the limit and the policy, and whatever is done with it and its buffer. -/
theorem incremental_run (limit : Nat) (policy : MalformedLines) (xs : List Handling) :
    Incremental limit ((fresh limit policy).run id xs)
      ((fresh limit policy).run Framer.forget xs) := by
  have hfresh : (fresh limit policy).framer.Sound (fresh limit policy).buffer :=
    Framer.sound_of_scanned_eq_zero rfl _
  have hsound := sound_run hfresh xs
  have hlimit : ((fresh limit policy).run id xs).2.framer.limit = limit := limit_run _ xs
  obtain ⟨hanswers, hbuffer, hforget⟩ := Alike.run hfresh ⟨rfl, rfl⟩ xs
  exact {
    scanned_le := Nat.le_min.mpr ⟨hsound.le_size, Nat.le_trans hsound.le_limit (Nat.le_of_eq hlimit)⟩
    clean := hsound.clean
    scanned_eq_zero := hsound.fresh
    inRange := hsound.decodeChecked_eq
    answers := hanswers
    buffer := hbuffer
    discarding := Framer.discarding_of_forget_eq hforget
    refused := fun _ _ _ => eq_of_refused }

/-- A line in two pieces: what the first attempt has looked at is remembered by the copy. -/
example : ((fresh 8 .stall).run id
    [.fill (Octets.ofList [65, 66]), .read, .copy, .fill (Octets.ofList [67])]).2.framer.scanned = 2 := by
  decide +kernel

end LineDesk

end SessionMux
