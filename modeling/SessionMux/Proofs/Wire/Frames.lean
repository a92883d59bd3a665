import SessionMux.Link.Pipe
import SessionMux.Proofs.Base64.Canonical
import SessionMux.Proofs.Text.Lossy
import SessionMux.Proofs.Wire.Intake

/-!
# Frames and what is read from them

A transport cuts its stream into frames anywhere, also inside a character, and each frame becomes
text by itself. What the texts say and what the bytes say differs in bytes that are not ASCII only
(`Octets.Alike`), so both are cut into lines at the same places; a line with such a byte is no
envelope on either side, however long the text makes it, and every other line is the same on both.

* `Frame.bytes` — the bytes of a frame as the transport carries them.
* `Alike.cut` — streams that are alike have the same line feeds.
* `envelopes_alike` — streams that are alike carry the same envelopes.
* **`feedAll_frames`** — an intake that is fed the texts of the frames hands out what the bytes carry.
-/

namespace SessionMux

open Octets Lines

/-! ## Lines of streams that are alike -/

namespace Octets

theorem Foreign.lineFeed_notMem {u : List UInt8} (hu : Foreign u) : lineFeed ∉ u :=
  fun h => absurd (hu.above _ h) (by decide)

namespace Alike

variable {s t : List UInt8}

/-- **Streams that are alike have the same line feeds.** -/
theorem cut (h : Alike s t) {line rest : List UInt8} (hline : lineFeed ∉ line)
    (hs : s = line ++ lineFeed :: rest) :
    ∃ line' rest', lineFeed ∉ line' ∧ t = line' ++ lineFeed :: rest' ∧ Alike line line' ∧
      Alike rest rest' := by
  induction h generalizing line with
  | nil => exact absurd hs (by simp)
  | @ascii c s t hc h ih =>
    cases line with
    | nil =>
      obtain ⟨rfl, rfl⟩ := List.cons.inj hs
      exact ⟨[], t, List.not_mem_nil, rfl, .nil, h⟩
    | cons c' line =>
      obtain ⟨rfl, hs₀⟩ := List.cons.inj hs
      have hne := List.ne_of_not_mem_cons hline
      have hline := List.not_mem_of_not_mem_cons hline
      obtain ⟨line', rest', hline', rfl, halike, hrest⟩ := ih hline hs₀
      exact ⟨c :: line', rest', List.not_mem_cons_of_ne_of_not_mem hne hline', rfl,
        .ascii hc halike, hrest⟩
  | @foreign u v s t hu hv h ih =>
    -- a part without line feeds lies in the first line
    obtain ⟨line₀, rfl, hs₀⟩ : ∃ line₀, line = u ++ line₀ ∧ s = line₀ ++ lineFeed :: rest := by
      rcases List.append_eq_append_iff.mp hs with ⟨a, ha, hrest⟩ | ⟨a, ha, hrest⟩
      · exact ⟨a, ha, hrest⟩
      · cases a with
        | nil => exact ⟨[], by simpa using ha.symm, by simpa using hrest.symm⟩
        | cons c a =>
          obtain ⟨rfl, -⟩ := List.cons.inj hrest
          exact absurd (by simp [ha]) hu.lineFeed_notMem
    obtain ⟨line', rest', hline', rfl, halike, hrest⟩ :=
      ih (fun hm => hline (List.mem_append_right u hm)) hs₀
    exact ⟨v ++ line', rest', List.not_mem_append hv.lineFeed_notMem hline',
      (List.append_assoc ..).symm, .foreign hu hv halike, hrest⟩

theorem symm (h : Alike s t) : Alike t s := by
  induction h with
  | nil => exact .nil
  | ascii hc _ ih => exact .ascii hc ih
  | foreign hu hv _ ih => exact .foreign hv hu ih

theorem lineFeed_notMem (h : Alike s t) (hs : lineFeed ∉ s) : lineFeed ∉ t := by
  intro ht
  obtain ⟨line, rest, hline, rfl⟩ := exists_line ht
  obtain ⟨line', rest', -, rfl, -, -⟩ := h.symm.cut hline rfl
  exact hs (by simp)

/-- Bytes that are alike are the same, or neither are ASCII. -/
theorem eq_or_above (h : Alike s t) : s = t ∨ (∃ c ∈ s, 128 ≤ c) ∧ ∃ c ∈ t, 128 ≤ c := by
  induction h with
  | nil => exact .inl rfl
  | ascii _ _ ih =>
    rcases ih with rfl | ⟨⟨c, hc, hc'⟩, d, hd, hd'⟩
    · exact .inl rfl
    · exact .inr ⟨⟨c, List.mem_cons_of_mem _ hc, hc'⟩, d, List.mem_cons_of_mem _ hd, hd'⟩
  | foreign hu hv _ _ =>
    obtain ⟨c, hc⟩ := List.exists_mem_of_ne_nil _ hu.ne_nil
    obtain ⟨d, hd⟩ := List.exists_mem_of_ne_nil _ hv.ne_nil
    exact .inr ⟨⟨c, List.mem_append_left _ hc, hu.above c hc⟩,
      d, List.mem_append_left _ hd, hv.above d hd⟩

theorem flatMap {α : Type} (as : List α) {f g : α → List UInt8} (h : ∀ a, Alike (f a) (g a)) :
    Alike (as.flatMap f) (as.flatMap g) := by
  induction as with
  | nil => exact .nil
  | cons a as ih => exact (h a).append ih

end Alike

end Octets

/-! ## Envelopes of streams that are alike -/

namespace Lines

theorem mem_withoutReturn {line : List UInt8} {c : UInt8} (hc : c ∈ line)
    (hne : c ≠ carriageReturn) : c ∈ withoutReturn line := by
  rw [withoutReturn]
  split
  · rename_i hlast
    obtain ⟨rest, rfl⟩ := List.getLast?_eq_some_iff.mp hlast
    rw [List.mem_append, List.mem_singleton] at hc
    rw [List.dropLast_concat]
    exact hc.resolve_right hne
  · exact hc

/-- **A line with a byte above ASCII is no envelope.** -/
theorem envelope?_above {line : List UInt8} (h : ∃ c ∈ line, 128 ≤ c) : envelope? line = none := by
  obtain ⟨c, hc, habove⟩ := h
  have hin : c ∈ withoutReturn line :=
    mem_withoutReturn hc (by rintro rfl; exact absurd habove (by decide))
  have hdecode : ∀ x, Base64.decode (ofList (withoutReturn line)) ≠ .ok x := fun x hx =>
    absurd habove (UInt8.not_le.mpr (Base64.lt_of_mem_decode hx hin))
  rw [envelope?, Envelope.ofLine]
  cases hx : Base64.decode (ofList (withoutReturn line)) with
  | ok x => exact absurd hx (hdecode x)
  | error f => rfl

theorem envelope?_alike {line line' : List UInt8} (h : Alike line line') (limit : Nat) :
    (if line.length ≤ limit then envelope? line else none) =
      if line'.length ≤ limit then envelope? line' else none := by
  rcases h.eq_or_above with rfl | ⟨habove, habove'⟩
  · rfl
  · rw [envelope?_above habove, envelope?_above habove', ite_self, ite_self]

/-- The first line gives its envelope, if it is one within the limit. -/
theorem envelopes_cons {line : List UInt8} (h : lineFeed ∉ line) (limit : Nat)
    (rest : List UInt8) :
    envelopes limit (line ++ lineFeed :: rest) =
      (if line.length ≤ limit then envelope? line else none).toList ++ envelopes limit rest := by
  by_cases hl : line.length ≤ limit
  · rw [envelopes_line h hl, if_pos hl]
  · rw [envelopes_long h (Nat.lt_of_not_le hl), if_neg hl]
    rfl

/-- **Streams that are alike carry the same envelopes**, whatever the limit. -/
theorem envelopes_alike {s t : List UInt8} (h : Alike s t) (limit : Nat) :
    envelopes limit s = envelopes limit t := by
  induction s using stream_induction generalizing t with
  | unfinished s hs =>
    rw [envelopes_of_notMem limit hs, envelopes_of_notMem limit (h.lineFeed_notMem hs)]
  | line line rest hline ih =>
    obtain ⟨line', rest', hline', rfl, halike, hrest⟩ := h.cut hline rfl
    rw [envelopes_cons hline, envelopes_cons hline', envelope?_alike halike, ih hrest]

end Lines

/-! ## Reading frames -/

/-- The bytes of a frame, as the transport carries them. -/
def Frame.bytes : Frame → List UInt8
  | .text s => toList s.toUTF8
  | .binary b => toList b

/-- **A frame and its text are alike.** -/
theorem Frame.alike (f : Frame) : Alike f.bytes (toList f.toText.toUTF8) := by
  cases f with
  | text s => exact .refl _
  | binary b => exact Utf8.alike_decodeLossy b

namespace Intake

/-- **Where frames are cut does not matter.** Whatever the limit and the frames, of text or of bytes:
fed the text of one frame after another, an intake under the policy `skip` hands out the envelopes of
the complete lines within the limit of the bytes that the frames carry in all. -/
theorem feedAll_frames (limit : Nat) (frames : List Frame) :
    ((fresh limit .skip).feedAll (frames.map (·.toText.toUTF8))).1 =
      envelopes limit (frames.flatMap Frame.bytes) := by
  obtain ⟨es, r, hread, henv, -⟩ := feedAll_holds (frames.map (·.toText.toUTF8))
    (holds_fresh limit .skip) (flows_skip limit _)
  have halike : Alike (frames.flatMap Frame.bytes)
      ((frames.map (·.toText.toUTF8)).flatMap toList) := by
    rw [List.flatMap_map]
    exact Alike.flatMap frames Frame.alike
  rw [hread, envelopes_alike halike]
  exact henv.symm

end Intake

end SessionMux
