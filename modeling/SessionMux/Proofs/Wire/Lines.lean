import SessionMux.Wire.Framing

/-!
# Lines of a byte string

The reference for everything that takes envelopes from a stream: the stream as a whole is cut at
every line feed. All pieces but the last are **complete** lines; the last piece, behind the last
line feed, is **unfinished**. Nothing here knows of buffers, chunks or marks.

* `complete`, `unfinished` — the pieces, by the library's `List.splitOn`.
* `envelopes` — what a stream says: of the complete lines those within the limit, each without one
  carriage return at its end, and of these the ones that are envelopes.
* **`complete_append`**, **`unfinished_append`** — what comes behind a stream is cut as if the
  unfinished line of the stream stood before it.
* `stream_induction` — a stream is a line without a line feed, or such a line, a line feed and a
  stream.
-/

namespace SessionMux.Lines

/-- The complete lines of a stream, without their line feeds. -/
def complete (s : List UInt8) : List (List UInt8) := (s.splitOn lineFeed).dropLast

/-- What stands behind the last line feed of a stream. -/
def unfinished (s : List UInt8) : List UInt8 :=
  (s.splitOn lineFeed).getLast (List.splitOn_ne_nil lineFeed s)

/-- A line without one carriage return at its end. -/
def withoutReturn (line : List UInt8) : List UInt8 :=
  if line.getLast? = some carriageReturn then line.dropLast else line

/-- The envelope that a line is, if it is one. -/
def envelope? (line : List UInt8) : Option Envelope :=
  (Envelope.ofLine (Octets.ofList (withoutReturn line))).toOption

/-- The complete lines of at most `limit` bytes. -/
def within (limit : Nat) (s : List UInt8) : List (List UInt8) :=
  (complete s).filter fun line => line.length ≤ limit

/-- The envelopes that a stream carries, in order. -/
def envelopes (limit : Nat) (s : List UInt8) : List Envelope := (within limit s).filterMap envelope?

/-! ## Cutting -/

theorem complete_of_notMem {s : List UInt8} (h : lineFeed ∉ s) : complete s = [] := by
  rw [complete, List.splitOn_eq_singleton h]
  rfl

theorem unfinished_of_notMem {s : List UInt8} (h : lineFeed ∉ s) : unfinished s = s := by
  simp only [unfinished, List.splitOn_eq_singleton h, List.getLast_singleton]

theorem complete_line {line : List UInt8} (h : lineFeed ∉ line) (rest : List UInt8) :
    complete (line ++ lineFeed :: rest) = line :: complete rest := by
  rw [complete, List.splitOn_append_cons_self_of_not_mem h,
    List.dropLast_cons_of_ne_nil (List.splitOn_ne_nil _ _)]
  rfl

theorem unfinished_line {line : List UInt8} (h : lineFeed ∉ line) (rest : List UInt8) :
    unfinished (line ++ lineFeed :: rest) = unfinished rest := by
  simp only [unfinished, List.splitOn_append_cons_self_of_not_mem h]
  exact List.getLast_cons (List.splitOn_ne_nil _ _)

/-- A byte string holds no line feed, or a first one. -/
theorem exists_line {s : List UInt8} (h : lineFeed ∈ s) :
    ∃ line rest, lineFeed ∉ line ∧ s = line ++ lineFeed :: rest := by
  obtain ⟨line, rest, rfl, hline⟩ := List.eq_append_cons_of_mem h
  exact ⟨line, rest, hline, rfl⟩

/-- The line that is too long already is longer when it ends. -/
theorem exists_longer_line {limit : Nat} {p s : List UInt8} (hp : lineFeed ∉ p)
    (hlong : limit < p.length) (h : lineFeed ∈ s) :
    ∃ line rest, lineFeed ∉ line ∧ s = line ++ lineFeed :: rest ∧
      lineFeed ∉ p ++ line ∧ limit < (p ++ line).length := by
  obtain ⟨line, rest, hline, rfl⟩ := exists_line h
  refine ⟨line, rest, hline, rfl, List.not_mem_append hp hline, ?_⟩
  rw [List.length_append]
  omega

/-- **Induction on the lines of a stream.** -/
theorem stream_induction {P : List UInt8 → Prop}
    (unfinished : ∀ s, lineFeed ∉ s → P s)
    (line : ∀ line rest, lineFeed ∉ line → P rest → P (line ++ lineFeed :: rest)) (s : List UInt8) :
    P s := by
  induction hn : s.length using Nat.strongRecOn generalizing s with
  | ind n ih =>
    by_cases h : lineFeed ∈ s
    · obtain ⟨l, rest, hl, rfl⟩ := exists_line h
      refine line l rest hl (ih rest.length ?_ rest rfl)
      rw [← hn, List.length_append, List.length_cons]
      omega
    · exact unfinished s h

theorem notMem_unfinished (s : List UInt8) : lineFeed ∉ unfinished s := by
  induction s using stream_induction with
  | unfinished s h => rwa [unfinished_of_notMem h]
  | line line rest h ih => rwa [unfinished_line h]

/-- What comes behind a stream completes its unfinished line first. -/
theorem complete_append (s t : List UInt8) :
    complete (s ++ t) = complete s ++ complete (unfinished s ++ t) := by
  induction s using stream_induction with
  | unfinished s h => rw [complete_of_notMem h, unfinished_of_notMem h, List.nil_append]
  | line line rest h ih =>
    rw [List.append_assoc, List.cons_append, complete_line h, complete_line h, unfinished_line h,
      ih, List.cons_append]

theorem unfinished_append (s t : List UInt8) :
    unfinished (s ++ t) = unfinished (unfinished s ++ t) := by
  induction s using stream_induction with
  | unfinished s h => rw [unfinished_of_notMem h]
  | line line rest h ih =>
    rw [List.append_assoc, List.cons_append, unfinished_line h, unfinished_line h, ih]

/-! ## Envelopes -/

theorem within_append (limit : Nat) (s t : List UInt8) :
    within limit (s ++ t) = within limit s ++ within limit (unfinished s ++ t) := by
  rw [within, complete_append, List.filter_append]
  rfl

theorem envelopes_append (limit : Nat) (s t : List UInt8) :
    envelopes limit (s ++ t) = envelopes limit s ++ envelopes limit (unfinished s ++ t) := by
  rw [envelopes, within_append, List.filterMap_append]
  rfl

theorem within_of_notMem (limit : Nat) {s : List UInt8} (h : lineFeed ∉ s) :
    within limit s = [] := by
  rw [within, complete_of_notMem h, List.filter_nil]

theorem within_line {limit : Nat} {line : List UInt8} (h : lineFeed ∉ line)
    (hl : line.length ≤ limit) (rest : List UInt8) :
    within limit (line ++ lineFeed :: rest) = line :: within limit rest := by
  rw [within, complete_line h, List.filter_cons_of_pos (by simpa using hl)]
  rfl

/-- A line above the limit is as if it were not there. -/
theorem within_long {limit : Nat} {line : List UInt8} (h : lineFeed ∉ line)
    (hl : limit < line.length) (rest : List UInt8) :
    within limit (line ++ lineFeed :: rest) = within limit rest := by
  rw [within, complete_line h, List.filter_cons_of_neg (by simpa using hl)]
  rfl

/-- Stripping the bytes of a line is stripping the line. -/
theorem stripReturn_eq (b : ByteArray) :
    stripReturn b = Octets.ofList (withoutReturn (Octets.toList b)) := by
  have hsize : b.size = (Octets.toList b).length := rfl
  have heq : ∀ c : ByteArray, Octets.ofList (Octets.toList c) = c := fun c => rfl
  by_cases hb : 0 < b.size
  · have hlast : (Octets.toList b).getLast? = some b[b.size - 1] := by
      rw [List.getLast?_eq_getElem?, List.getElem?_eq_getElem (by omega)]
      rfl
    simp only [stripReturn, dif_pos hb, withoutReturn, hlast, Option.some.injEq]
    split
    · rw [← heq (b.extract 0 (b.size - 1))]
      congr 1
      simp only [Octets.toList, ByteArray.data_extract, Array.toList_extract,
        List.extract_eq_take_drop, List.drop_zero, Nat.sub_zero, List.dropLast_eq_take]
      rfl
    · exact (heq b).symm
  · have hnil : Octets.toList b = [] := List.eq_nil_of_length_eq_zero (by omega)
    simp only [stripReturn, dif_neg hb, hnil]
    rw [← heq b, hnil]
    rfl

end SessionMux.Lines
