import SessionMux.Proofs.Wire.Attempts

/-!
# How many attempts a feed makes

The loop of an attempt looks at the front of the buffer, drops what it finds and looks again, and the
loop of a feed makes one attempt after another, also after one that has left the buffer as it was.
Here both loops are given an allowance and have no result when it is used up. An allowance of one more
than there are bytes is enough for either.

The bytes alone do not tell what is left to do. A line above the limit is reported in one attempt and
begins to go in the next, so a framer that is dropping a line has one attempt less ahead of it
(`Framer.ahead`). A look that goes on brings the framer nearer to the end of the buffer. A look that
ends an attempt, and not the feed, takes a line, or turns the dropping on, which it cannot do twice
without a byte going in between.

* `Framer.look`, `Framer.decodeWithin`, `Intake.feedWithin` — one pass of the loop of an attempt, and
  the two loops with their allowances.
* `looks_look` — all that a look can come to.
* `exists_last_look` — what an attempt comes to is what its last look comes to.
* **`decodeWithin_eq`** — an attempt ends within one look more than there are bytes.
* `drainWithin_eq` — an allowance is enough exactly if it allows the attempts that are made.
* `length_attempts_le` — no more attempts are made than are ahead.
* **`finishes_feed`** — a feed makes at most one attempt more than there are bytes, whatever state the
  intake is in, and the attempt behind a report uses up a byte.
-/

namespace SessionMux

/-- What one look at the front of a buffer comes to. -/
inductive Look where
  /-- Bytes have been dropped without a word, and the attempt goes on. -/
  | again (f : Framer) (b : Buffer)
  /-- The attempt is over. -/
  | ends (answer : Framed) (f : Framer) (b : Buffer)

namespace Framer

/-! ## Looks -/

/-- One look at the front of a buffer. -/
def look (f : Framer) (b : Buffer) : Look :=
  let stop := min (f.limit + 1) b.size
  match b.indexOf? lineFeed f.scanned stop with
  | some k =>
    if f.discarding then .again { f with scanned := 0, discarding := false } (b.drop (k + 1))
    else
      match Envelope.ofLine (stripReturn (b.take k)) with
      | .ok e => .ends (.envelope e) { f with scanned := 0 } (b.drop (k + 1))
      | .error e =>
        match f.policy with
        | .skip => .again { f with scanned := 0 } (b.drop (k + 1))
        | .stall => .ends (.fault e) { f with scanned := 0 } b
  | none =>
    if f.discarding then
      if b.size ≤ stop then .ends .nothing { f with scanned := 0 } (b.drop stop)
      else .again { f with scanned := 0 } (b.drop stop)
    else if f.limit < b.size then
      .ends (.fault (.lineTooLong f.limit)) { f with scanned := 0, discarding := true } b
    else .ends .nothing { f with scanned := stop } b

/-- An attempt is one look after another, until a look ends it. -/
theorem decode_eq_look (f : Framer) (b : Buffer) :
    f.decode b =
      match f.look b with
      | .again f' b' => f'.decode b'
      | .ends answer f' b' => (answer, f', b') := by
  rw [decode_eq]
  simp only [look]
  cases b.indexOf? lineFeed f.scanned (min (f.limit + 1) b.size) with
  | some k =>
    by_cases hd : f.discarding
    · simp only [if_pos hd]
    · simp only [if_neg hd]
      cases Envelope.ofLine (stripReturn (b.take k)) with
      | ok e => rfl
      | error e => cases f.policy <;> rfl
  | none =>
    by_cases hd : f.discarding
    · simp only [if_pos hd]
      split <;> rfl
    · simp only [if_neg hd]
      split <;> rfl

/-- An attempt that is allowed so many looks. -/
def decodeWithin : Nat → Framer → Buffer → Option (Framed × Framer × Buffer)
  | 0, _, _ => none
  | looks + 1, f, b =>
    match f.look b with
    | .again f' b' => decodeWithin looks f' b'
    | .ends answer f' b' => some (answer, f', b')

/-- **All that a look can come to**: whether a line is being dropped before and after it, and how
much of the buffer it leaves. -/
inductive Looks (f : Framer) (b : Buffer) : Look → Prop
  /-- The rest of a dropped line goes with its line feed. -/
  | rest {f' b'} : f.discarding = true → f'.discarding = false → b'.size < b.size →
      Looks f b (.again f' b')
  /-- Of a dropped line a window goes, … -/
  | window {f' b'} : f.discarding = true → f'.discarding = true → b'.size < b.size →
      0 < b'.size → Looks f b (.again f' b')
  /-- … or all that is there. -/
  | emptied {f' b'} : f.discarding = true → b'.size = 0 → Looks f b (.ends .nothing f' b')
  /-- A line that is no envelope goes. -/
  | skipped {f' b'} : f.discarding = false → f'.discarding = false → b'.size < b.size →
      Looks f b (.again f' b')
  /-- A line that is an envelope goes. -/
  | envelope {e f' b'} : f.discarding = false → f'.discarding = false → b'.size < b.size →
      Looks f b (.ends (.envelope e) f' b')
  /-- A line that is no envelope stays. -/
  | malformed {e f'} : f.discarding = false → (∀ n, e ≠ .lineTooLong n) →
      Looks f b (.ends (.fault e) f' b)
  /-- A line above the limit is there to be dropped. -/
  | tooLong {n f'} : f.discarding = false → f'.discarding = true → 0 < b.size →
      Looks f b (.ends (.fault (.lineTooLong n)) f' b)
  /-- There is no complete line. -/
  | waiting {f'} : f.discarding = false → Looks f b (.ends .nothing f' b)

theorem looks_look (f : Framer) (b : Buffer) : Looks f b (f.look b) := by
  have hline : ∀ {i stop k}, b.indexOf? lineFeed i stop = some k →
      (b.drop (k + 1)).size < b.size := by
    intro i stop k hk
    have := Buffer.lt_of_indexOf? hk
    rw [Buffer.size_drop]
    omega
  fun_cases look f b with
  | case1 stop k hk hd => exact .rest hd rfl (hline hk)
  | case2 stop k hk hd e he => exact .envelope (by simpa using hd) (by simpa using hd) (hline hk)
  | case3 stop k hk hd e he hp => exact .skipped (by simpa using hd) (by simpa using hd) (hline hk)
  | case4 stop k hk hd e he hp =>
    exact .malformed (by simpa using hd) (Envelope.ofLine_ne_lineTooLong he)
  | case5 stop hk hd hs =>
    refine .emptied hd ?_
    rw [Buffer.size_drop]
    omega
  | case6 stop hk hd hs =>
    refine .window hd hd ?_ ?_ <;> rw [Buffer.size_drop] <;> omega
  | case7 stop hk hd hl => exact .tooLong (by simpa using hd) rfl (Nat.zero_lt_of_lt hl)
  | case8 stop hk hd hl => exact .waiting (by simpa using hd)

/-- So many attempts are ahead at the most, the one that finds nothing counted. -/
def ahead (f : Framer) (b : Buffer) : Nat := if f.discarding then max 1 b.size else b.size + 1

theorem ahead_pos (f : Framer) (b : Buffer) : 0 < f.ahead b := by
  rw [ahead]
  split <;> omega

theorem ahead_le (f : Framer) (b : Buffer) : f.ahead b ≤ b.size + 1 := by
  rw [ahead]
  split <;> omega

section Looking

variable {f f' : Framer} {b b' : Buffer} {answer : Framed}

/-- **A look that goes on uses up a byte.** -/
theorem Looks.size_lt (h : Looks f b (.again f' b')) : b'.size < b.size := by
  cases h <;> assumption

/-- A look that goes on puts no attempt ahead. -/
theorem Looks.ahead_le (h : Looks f b (.again f' b')) : f'.ahead b' ≤ f.ahead b := by
  cases h with
  | rest hd hd' hsize | window hd hd' hsize | skipped hd hd' hsize =>
    -- where the dropping is over, the line feed that has gone makes up for it
    simp only [ahead, hd, hd', if_true, Bool.false_eq_true, if_false]
    omega

theorem Looks.size_le (h : Looks f b (.ends answer f' b')) : b'.size ≤ b.size := by
  cases h <;> omega

/-- While a line is being dropped, a look ends the attempt only with an empty buffer. -/
theorem Looks.size_eq_zero (h : Looks f b (.ends answer f' b')) (hd : f.discarding = true) :
    b'.size = 0 := by
  cases h <;> simp_all

/-- **An attempt ends with a look**, and before that look there is no more left to do than before the
attempt. -/
theorem exists_last_look (h : f.decode b = (answer, f', b')) :
    ∃ f₁ b₁, b₁.size ≤ b.size ∧ f₁.ahead b₁ ≤ f.ahead b ∧ Looks f₁ b₁ (.ends answer f' b') := by
  -- by induction on the bytes that are left, of which a look that goes on leaves fewer
  induction hn : b.size using Nat.strongRecOn generalizing f b with
  | ind n ih =>
    subst hn
    have hlook := looks_look f b
    rw [decode_eq_look] at h
    cases hl : f.look b with
    | ends answer₁ f₁ b₁ =>
      rw [hl] at h hlook
      cases h
      exact ⟨f, b, Nat.le_refl _, Nat.le_refl _, hlook⟩
    | again f₁ b₁ =>
      rw [hl] at h hlook
      obtain ⟨f₂, b₂, hsize, hahead, hlast⟩ := ih b₁.size hlook.size_lt h rfl
      exact ⟨f₂, b₂, Nat.le_trans hsize (Nat.le_of_lt hlook.size_lt),
        Nat.le_trans hahead hlook.ahead_le, hlast⟩

/-! ## Attempts -/

/-- **An attempt ends** within one look more than there are bytes. -/
theorem decodeWithin_eq {looks : Nat} (h : b.size < looks) :
    decodeWithin looks f b = some (f.decode b) := by
  induction looks generalizing f b with
  | zero => omega
  | succ looks ih =>
    have hlook := looks_look f b
    rw [decodeWithin, decode_eq_look]
    cases hl : f.look b with
    | ends answer f' b' => rfl
    | again f' b' =>
      rw [hl] at hlook
      have := hlook.size_lt
      exact ih (by omega)

/-- No attempt makes the buffer longer. -/
theorem size_decode_le (f : Framer) (b : Buffer) : (f.decode b).2.2.size ≤ b.size := by
  obtain ⟨f₁, b₁, hsize, -, hlast⟩ := exists_last_look (f := f) (b := b) rfl
  exact Nat.le_trans hlast.size_le hsize

/-- An attempt that takes an envelope uses up its line. -/
theorem size_lt_of_envelope {e : Envelope} (h : f.decode b = (.envelope e, f', b')) :
    b'.size < b.size := by
  obtain ⟨f₁, b₁, hsize, -, hlast⟩ := exists_last_look h
  cases hlast with
  | envelope hd hd' hless => exact Nat.lt_of_lt_of_le hless hsize

theorem ahead_lt_of_envelope {e : Envelope} (h : f.decode b = (.envelope e, f', b')) :
    f'.ahead b' < f.ahead b := by
  obtain ⟨f₁, b₁, -, hahead, hlast⟩ := exists_last_look h
  refine Nat.lt_of_lt_of_le ?_ hahead
  cases hlast with
  | envelope hd hd' hless =>
    simp only [ahead, hd, hd', Bool.false_eq_true, if_false]
    omega

/-- An attempt that reports a line leaves bytes of the line to be dropped. -/
theorem dropping_of_tooLong {n : Nat} (h : f.decode b = (.fault (.lineTooLong n), f', b')) :
    f'.discarding = true ∧ 0 < b'.size := by
  obtain ⟨f₁, b₁, -, -, hlast⟩ := exists_last_look h
  cases hlast with
  | malformed hd hne => exact absurd rfl (hne n)
  | tooLong hd hd' hpos => exact ⟨hd', hpos⟩

/-- A line that is reported is not reported again. -/
theorem ahead_lt_of_tooLong {n : Nat} (h : f.decode b = (.fault (.lineTooLong n), f', b')) :
    f'.ahead b' < f.ahead b := by
  obtain ⟨f₁, b₁, -, hahead, hlast⟩ := exists_last_look h
  refine Nat.lt_of_lt_of_le ?_ hahead
  cases hlast with
  | malformed hd hne => exact absurd rfl (hne n)
  | tooLong hd hd' hpos =>
    simp only [ahead, hd, hd', if_true, Bool.false_eq_true, if_false]
    omega

/-- **While a line is being dropped, an attempt uses up a byte** if there is one. -/
theorem size_decode_lt (hd : f.discarding = true) (hpos : 0 < b.size) :
    (f.decode b).2.2.size < b.size := by
  have h := looks_look f b
  rw [decode_eq_look]
  cases hlook : f.look b with
  | ends answer f' b' =>
    rw [hlook] at h
    exact Nat.lt_of_le_of_lt (Nat.le_of_eq (h.size_eq_zero hd)) hpos
  | again f' b' =>
    rw [hlook] at h
    exact Nat.lt_of_le_of_lt (size_decode_le f' b') h.size_lt

end Looking

/-- At every limit there is a line that is reported before any of it has gone. -/
theorem exists_reported (limit : Nat) (policy : MalformedLines) :
    ∃ b, decode { limit, policy } b =
      (.fault (.lineTooLong limit), { limit, policy, discarding := true }, b) := by
  have hbytes : (Buffer.append {} (Octets.ofList (List.replicate (limit + 1) 65))).toList =
      List.replicate (limit + 1) 65 := by
    rw [Buffer.toList_append, Octets.toList_ofList]
    rfl
  refine ⟨Buffer.append {} (Octets.ofList (List.replicate (limit + 1) 65)), ?_⟩
  apply decode_tooLong rfl
  · rw [hbytes]
    intro hm
    exact absurd (List.eq_of_mem_replicate (List.mem_of_mem_take hm)) (by decide)
  · rw [← Buffer.length_toList, hbytes, List.length_replicate]
    exact Nat.lt_succ_self limit

end Framer

namespace Intake

/-! ## Feeds -/

/-- Draining that is allowed so many attempts, and so many looks in each. -/
def drainWithin (looks : Nat) : Nat → Intake → List Envelope → Option (List Envelope × Intake)
  | 0, _, _ => none
  | attempts + 1, r, taken =>
    match r.framer.decodeWithin looks r.buffer with
    | none => none
    | some (.envelope e, f, b) =>
      drainWithin looks attempts { r with framer := f, buffer := b } (e :: taken)
    | some (.nothing, f, b) => some (taken.reverse, { r with framer := f, buffer := b })
    | some (.fault (.lineTooLong _), f, b) =>
      drainWithin looks attempts { r with framer := f, buffer := b } taken
    | some (.fault e, f, b) =>
      some (taken.reverse,
        { r with framer := f, buffer := b, stalled := r.stalled || e.isMalformedLine })

/-- Taking in a chunk, with so many attempts allowed and so many looks in each. An intake that has
stalled makes no attempt. -/
def feedWithin (looks attempts : Nat) (r : Intake) (chunk : ByteArray) :
    Option (List Envelope × Intake) :=
  if r.stalled then
    let room := r.framer.limit - r.buffer.size
    some ([], { r with buffer := r.buffer.append (chunk.extract 0 room) })
  else drainWithin looks attempts { r with buffer := r.buffer.append chunk } []

theorem length_attempts_pos (r : Intake) : 0 < r.attempts.length := by
  rw [attempts_eq]
  split <;> exact Nat.zero_lt_succ _

/-- **An allowance is enough exactly if it allows the attempts that are made**, and more of it changes
nothing. -/
theorem drainWithin_eq {looks : Nat} {r : Intake} (hlooks : r.buffer.size < looks) (attempts : Nat)
    (taken : List Envelope) :
    drainWithin looks attempts r taken =
      if r.attempts.length ≤ attempts then some (r.drain taken) else none := by
  induction attempts generalizing r taken with
  | zero => rw [drainWithin, if_neg (Nat.not_le.mpr r.length_attempts_pos)]
  | succ attempts ih =>
    have hsize := Framer.size_decode_le r.framer r.buffer
    rw [drainWithin, Framer.decodeWithin_eq hlooks, attempts_eq, drain_eq]
    rcases hdec : r.framer.decode r.buffer with ⟨answer, f, b⟩
    rw [hdec] at hsize
    have hnext : ∀ taken, drainWithin looks attempts { r with framer := f, buffer := b } taken = _ :=
      ih (r := { r with framer := f, buffer := b }) (Nat.lt_of_le_of_lt hsize hlooks)
    cases answer with
    | envelope e => simp only [hnext, List.length_cons, Nat.add_le_add_iff_right]
    | nothing => simp
    | fault e =>
      cases e with
      | lineTooLong n => simp only [hnext, List.length_cons, Nat.add_le_add_iff_right]
      | _ => simp

/-- **No more attempts are made than are ahead.** -/
theorem length_attempts_le (r : Intake) : r.attempts.length ≤ r.framer.ahead r.buffer := by
  fun_induction attempts r with
  | case1 r e f b h ih =>
    have := Framer.ahead_lt_of_envelope h
    rw [List.length_cons]
    exact Nat.succ_le_of_lt (Nat.lt_of_le_of_lt ih this)
  | case3 r n f b h ih =>
    have := Framer.ahead_lt_of_tooLong h
    rw [List.length_cons]
    exact Nat.succ_le_of_lt (Nat.lt_of_le_of_lt ih this)
  | case2 r _ _ h | case4 r _ _ _ _ h => exact Framer.ahead_pos _ _

theorem length_attemptsOf_le (r : Intake) (chunk : ByteArray) :
    (r.attemptsOf chunk).length ≤ r.buffer.size + chunk.size + 1 := by
  rw [attemptsOf]
  split
  · exact Nat.zero_le _
  · refine Nat.le_trans (length_attempts_le _) ?_
    rw [← Buffer.size_append]
    exact Framer.ahead_le _ _

theorem feedWithin_eq {looks : Nat} {r : Intake} {chunk : ByteArray}
    (hlooks : r.buffer.size + chunk.size < looks) (attempts : Nat) :
    r.feedWithin looks attempts chunk =
      if (r.attemptsOf chunk).length ≤ attempts then some (r.feed chunk) else none := by
  rw [feedWithin, attemptsOf, feed]
  split
  · exact (if_pos (Nat.zero_le attempts)).symm
  · rw [← Buffer.size_append] at hlooks
    exact drainWithin_eq (r := { r with buffer := r.buffer.append chunk }) hlooks attempts []

/-- **How a feed comes to its end** that has `n` bytes to work off. -/
structure Finishes (r : Intake) (chunk : ByteArray) (n : Nat) : Prop where
  /-- It makes at most one attempt more than there are bytes. -/
  attempts : (r.attemptsOf chunk).length ≤ n + 1
  /-- Allowed so many attempts, and so many looks in each of them, it has its result; … -/
  feed : r.feedWithin (n + 1) (n + 1) chunk = some (r.feed chunk)
  /-- … allowed fewer attempts than it makes, it has none. -/
  counted : ∀ attempts, attempts < (r.attemptsOf chunk).length →
    r.feedWithin (n + 1) attempts chunk = none
  /-- Every single attempt ends within one look more than there are bytes, … -/
  attempt : ∀ (f : Framer) (b : Buffer), f.decodeWithin (b.size + 1) b = some (f.decode b)
  /-- … and if it takes an envelope it uses up at least one byte. -/
  taken : ∀ (f f' : Framer) (b b' : Buffer) e, f.decode b = (.envelope e, f', b') → b'.size < b.size
  /-- A line above the limit may be reported without any byte being used up, … -/
  standing : ∀ limit policy, ∃ b, Framer.decode { limit, policy } b =
    (.fault (.lineTooLong limit), { limit, policy, discarding := true }, b)
  /-- … but then the next attempt uses up at least one. -/
  reported : ∀ (f f' : Framer) (b b' : Buffer) limit,
    f.decode b = (.fault (.lineTooLong limit), f', b') → (f'.decode b').2.2.size < b'.size

/-- **Reading comes to its end**, whatever state an intake is in, whatever its limit and its policy, and
whatever chunk it takes in: after at most one attempt more than there are bytes in the buffer and in
the chunk. -/
theorem finishes_feed (r : Intake) (chunk : ByteArray) :
    Finishes r chunk (r.buffer.size + chunk.size) := by
  have hattempts := r.length_attemptsOf_le chunk
  have hwithin : ∀ attempts, r.feedWithin (r.buffer.size + chunk.size + 1) attempts chunk = _ :=
    feedWithin_eq (Nat.lt_succ_self _)
  exact {
    attempts := hattempts
    feed := by rw [hwithin, if_pos hattempts]
    counted := fun k hk => by rw [hwithin, if_neg (Nat.not_le.mpr hk)]
    attempt := fun f b => Framer.decodeWithin_eq (Nat.lt_succ_self _)
    taken := fun f f' b b' e h => Framer.size_lt_of_envelope h
    standing := Framer.exists_reported
    reported := fun f f' b b' limit h =>
      have hdropping := Framer.dropping_of_tooLong h
      Framer.size_decode_lt hdropping.1 hdropping.2 }

/-- A letter where the limit is zero is reported in the first attempt and gone after the second: here
there is one attempt more than there are bytes. -/
example : ((fresh 0 .skip).attemptsOf (Octets.ofList [65])).length = 2 := by decide +kernel

end Intake

end SessionMux
