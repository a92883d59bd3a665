import SessionMux.Heartbeat.Rehearsal
import SessionMux.Proofs.Heartbeat.Reports

/-!
# Rehearsals from start to stop

A rehearsal goes on for as long as somebody lets time pass, and it can be stopped between any two of its
steps: while it rests, while a ping is out, and at the very moment at which the one ends and the other
begins. The host does about each ping what its script says, so the outcomes of the checks that have come to
their end are the beginning of a list that only the script and the options know. What has been reported by
then is told by these outcomes alone.

* `PingScript.verdict`, `promised`, `Rehearsal.outcomes` — what becomes of each ping, and of those so far.
* `RehearsalAct`, `Rehearsal.run` — letting time pass, also up to the next thing that happens.
* `Rehearsal.Told`, **`told_run`** — what holds of every run.
* `run_of_stopped` — a rehearsal that has been stopped does nothing.
* `Told.calls_lt_advance` — one that has not been stopped begins another check.
* **`reported_run`** — what is reported of a rehearsal, stopped wherever.
-/

namespace SessionMux

/-- What becomes of a ping: the answer counts if it comes in time. -/
def PingScript.verdict (timeout : Nat) (p : PingScript) : CheckOutcome :=
  match p.delay with
  | some delay => if delay ≤ timeout then p.outcome else .timedOut
  | none => .timedOut

/-- How long a check takes: until the answer comes or the time is up. -/
def PingScript.lasts (timeout : Nat) (p : PingScript) : Nat :=
  match p.delay with
  | some delay => min delay timeout
  | none => timeout

/-- How many answers come in time. -/
def PingScript.answers (timeout : Nat) (p : PingScript) : Nat :=
  match p.delay with
  | some delay => if delay ≤ timeout then 1 else 0
  | none => 0

theorem PingScript.lasts_le (timeout : Nat) (p : PingScript) : p.lasts timeout ≤ timeout := by
  rw [lasts]
  split
  · exact Nat.min_le_right _ _
  · exact Nat.le_refl _

/-- What the host does about the `i`-th ping: the last entry of a script holds for ever, and without a
script every ping is answered at once. -/
def promised (script : List PingScript) (i : Nat) : PingScript :=
  script[i]?.getD (script.getLast?.getD ⟨some 0, .answered⟩)

/-- Letting time pass. -/
inductive RehearsalAct where
  /-- Up to the next thing that happens, if it is due up to a moment. -/
  | tick (target : Nat)
  | advance (milliseconds : Nat)

namespace Rehearsal

/-- Lets time pass once. -/
def act (r : Rehearsal) : RehearsalAct → List TimedReport × Rehearsal
  | .tick target => (r.step? target).getD ([], r)
  | .advance milliseconds => r.advance milliseconds

/-- Lets time pass again and again; the reports that are made meanwhile, in order. -/
def run : Rehearsal → List RehearsalAct → List TimedReport × Rehearsal
  | r, [] => ([], r)
  | r, a :: acts => ((r.act a).1 ++ ((r.act a).2.run acts).1, ((r.act a).2.run acts).2)

/-- So many checks have come to their end. -/
def concluded (r : Rehearsal) : Nat :=
  match r.heartbeat.phase with
  | .checking _ => r.calls - 1
  | _ => r.calls

/-- The outcomes of the checks that have come to their end. -/
def outcomes (script : List PingScript) (r : Rehearsal) : List CheckOutcome :=
  (List.range r.concluded).map fun i => (promised script i).verdict r.heartbeat.options.timeout

/-! ## What holds of every run -/

/-- Where a rehearsal is: it rests, or the ping is out that has begun last. -/
def InCourse (script : List PingScript) (r : Rehearsal) : Prop :=
  (∃ wake, r.heartbeat.phase = .resting wake ∧ wake ≤ r.now + r.heartbeat.options.interval) ∨
    ∃ begun n, r.heartbeat.phase = .checking (begun + r.heartbeat.options.timeout) ∧ begun ≤ r.now ∧
      r.calls = n + 1 ∧
      r.coming = (promised script n).delay.map fun delay => (begun + delay, (promised script n).outcome)

/-- **What holds of a rehearsal that has made reports** and has not been stopped. -/
structure Told (options : HeartbeatOptions) (script : List PingScript) (made : List TimedReport)
    (r : Rehearsal) : Prop where
  options_eq : r.heartbeat.options = options
  /-- The script goes on behind the pings that have begun. -/
  promised_eq : ∀ i, promised r.script i = promised script (r.calls + i)
  inCourse : r.InCourse script
  failing_eq : r.heartbeat.failing = Heartbeat.lastFailed false (r.outcomes script)
  made_eq : made.map Prod.snd =
    (Heartbeat.judgeAll options.report options.timeout false (r.outcomes script)).reduceOption

section Told

variable {options : HeartbeatOptions} {script : List PingScript} {made : List TimedReport}
  {r r' : Rehearsal} {target : Nat} {reports : List TimedReport}

theorem told_start (options : HeartbeatOptions) (script : List PingScript) :
    Told options script [] (start options script) where
  options_eq := rfl
  promised_eq i := by
    rw [start]
    cases script with
    | nil => cases i <;> rfl
    | cons p rest => exact congrArg (promised (p :: rest)) (Nat.zero_add i).symm
  inCourse := .inl ⟨_, rfl, Nat.le_refl _⟩
  failing_eq := rfl
  made_eq := rfl

/-- Behind the first entry of a script comes what is promised of the later pings. -/
theorem promised_tail (p q : PingScript) (rest : List PingScript) (i : Nat) :
    promised (q :: rest) i = promised (p :: q :: rest) (i + 1) := by
  rw [promised, promised, List.getElem?_cons_succ, List.getLast?_cons_cons]

/-- **A check begins.** -/
theorem Told.ping (h : Told options script made r) {wake t : Nat}
    (hphase : r.heartbeat.phase = .resting wake) : Told options script made (r.ping t) := by
  have hconcluded : (r.ping t).concluded = r.concluded := by
    simp [concluded, Rehearsal.ping, Heartbeat.check, hphase]
  have houtcomes : (r.ping t).outcomes script = r.outcomes script := by
    rw [outcomes, outcomes, hconcluded]
    rfl
  refine ⟨h.options_eq, fun i => ?_, .inr ⟨t, r.calls, rfl, Nat.le_refl t, rfl, ?_⟩, ?_, ?_⟩
  · show promised (r.ping t).script i = promised script (r.calls + 1 + i)
    rw [Nat.add_assoc, ← h.promised_eq (1 + i), Nat.add_comm 1 i, Rehearsal.ping]
    rcases hs : r.script with _ | ⟨p, _ | ⟨q, rest⟩⟩
    · rfl
    · cases i <;> rfl
    · exact promised_tail p q rest i
  · have hfirst := h.promised_eq 0
    rw [Nat.add_zero] at hfirst
    rw [← hfirst, Rehearsal.ping]
    rcases hs : r.script with _ | ⟨p, _ | ⟨q, rest⟩⟩ <;> rfl
  · rw [houtcomes]
    exact h.failing_eq
  · rw [houtcomes]
    exact h.made_eq

/-- **A check comes to its end**, with what becomes of its ping. -/
theorem Told.conclude (h : Told options script made r) {n deadline t : Nat} {o : CheckOutcome}
    (hphase : r.heartbeat.phase = .checking deadline) (hcalls : r.calls = n + 1)
    (ho : o = (promised script n).verdict r.heartbeat.options.timeout) :
    Told options script (made ++ (r.conclude t o).1) (r.conclude t o).2 := by
  have houtcomes : (r.conclude t o).2.outcomes script = r.outcomes script ++ [o] := by
    have hbefore : r.concluded = n := by simp [concluded, hphase, hcalls]
    have hbehind : (r.conclude t o).2.concluded = n + 1 := hcalls
    rw [outcomes, outcomes, hbefore, hbehind, List.range_succ, List.map_append, ho]
    rfl
  have hjudge : (r.conclude t o).1 =
      ((Heartbeat.judge options.report options.timeout (Heartbeat.lastFailed false (r.outcomes script))
        o).1.map fun x => (t, x)).toList := by
    rw [← h.failing_eq, ← h.options_eq]
    rfl
  refine ⟨h.options_eq, h.promised_eq, .inl ⟨_, rfl, Nat.le_refl _⟩, ?_, ?_⟩
  · rw [houtcomes]
    show (Heartbeat.judge _ _ _ o).2 = _
    rw [Heartbeat.judge_eq, Heartbeat.lastFailed, List.getLast?_concat]
    rfl
  · rw [houtcomes, Heartbeat.judgeAll_concat, List.reduceOption_append, ← h.made_eq, List.map_append, hjudge]
    cases (Heartbeat.judge options.report options.timeout (Heartbeat.lastFailed false (r.outcomes script))
      o).1 <;> rfl

/-! ### Steps -/

theorem step?_of_resting (target : Nat) {wake : Nat} (hphase : r.heartbeat.phase = .resting wake) :
    r.step? target = if wake ≤ target then some ([], r.ping wake) else none := by
  simp only [step?, hphase]

/-- The check that is under way ends when the answer comes or the time is up, whatever is first. -/
theorem step?_of_checking (target : Nat) {begun timeout : Nat} {p : PingScript}
    (hphase : r.heartbeat.phase = .checking (begun + timeout))
    (hcoming : r.coming = p.delay.map fun delay => (begun + delay, p.outcome)) :
    r.step? target = if begun + p.lasts timeout ≤ target
      then some ((r.conclude (begun + p.lasts timeout) (p.verdict timeout)).1,
        { (r.conclude (begun + p.lasts timeout) (p.verdict timeout)).2 with
          answered := r.answered + p.answers timeout })
      else none := by
  obtain ⟨delay?, outcome⟩ := p
  simp only [step?, hphase, hcoming, PingScript.lasts, PingScript.verdict, PingScript.answers]
  cases delay? with
  | none => rfl
  | some delay =>
    simp only [Option.map_some]
    by_cases hd : delay ≤ timeout
    · simp only [Nat.add_le_add_iff_left, hd, if_true, Nat.min_eq_left hd]
      rfl
    · simp only [Nat.add_le_add_iff_left, hd, if_false, Nat.min_eq_right (Nat.le_of_not_le hd)]
      rfl

/-- **Every step**: a check begins, or the one that is under way ends. -/
theorem Told.step (h : Told options script made r) (hs : r.step? target = some (reports, r')) :
    Told options script (made ++ reports) r' ∧ r'.now ≤ target ∧ r.calls ≤ r'.calls ∧
      reports.reverse = reports := by
  rcases h.inCourse with ⟨wake, hphase, -⟩ | ⟨begun, n, hphase, -, hcalls, hcoming⟩
  · rw [step?_of_resting target hphase] at hs
    split at hs
    · rename_i hdue
      cases hs
      rw [List.append_nil]
      exact ⟨h.ping hphase, hdue, Nat.le_succ _, rfl⟩
    · cases hs
  · rw [step?_of_checking target hphase hcoming] at hs
    split at hs
    · rename_i hdue
      cases hs
      have hnext := h.conclude (t := begun + (promised script n).lasts r.heartbeat.options.timeout)
        hphase hcalls rfl
      refine ⟨⟨hnext.options_eq, hnext.promised_eq, hnext.inCourse, hnext.failing_eq, hnext.made_eq⟩,
        hdue, Nat.le_refl _, ?_⟩
      rw [Rehearsal.conclude]
      simp only
      cases (r.heartbeat.conclude _ _).1 <;> rfl
    · cases hs

/-- The reports that were made before only stand before the others. -/
theorem runFor_made (fuel : Nat) (made : List TimedReport) (r : Rehearsal) :
    runFor target fuel made r =
      (made.reverse ++ (runFor target fuel [] r).1, (runFor target fuel [] r).2) := by
  induction fuel generalizing made r with
  | zero => simp [runFor]
  | succ fuel ih =>
    simp only [runFor]
    cases r.step? target with
    | none => simp
    | some next =>
      simp only
      rw [ih (next.1 ++ made), ih (next.1 ++ [])]
      simp

theorem runFor_of_step? (fuel : Nat) (hs : r.step? target = some (reports, r')) :
    runFor target (fuel + 1) [] r =
      (reports.reverse ++ (runFor target fuel [] r').1, (runFor target fuel [] r').2) := by
  simp only [runFor, hs]
  rw [runFor_made, List.append_nil]

theorem Told.runFor (h : Told options script made r) (hnow : r.now ≤ target) (fuel : Nat) :
    Told options script (made ++ (runFor target fuel [] r).1) (runFor target fuel [] r).2 ∧
      (runFor target fuel [] r).2.now ≤ target ∧ r.calls ≤ (runFor target fuel [] r).2.calls := by
  have hstay : Told options script (made ++ [].reverse) r := by
    rw [List.reverse_nil, List.append_nil]
    exact h
  induction fuel generalizing made r with
  | zero => exact ⟨hstay, hnow, Nat.le_refl _⟩
  | succ fuel ih =>
    cases hs : r.step? target with
    | none =>
      simp only [Rehearsal.runFor, hs]
      exact ⟨hstay, hnow, Nat.le_refl _⟩
    | some next =>
      obtain ⟨hstep, hnow', hcalls, hreverse⟩ := h.step hs
      obtain ⟨htold, hbound, hmore⟩ := ih hstep hnow' (by simpa using hstep)
      rw [runFor_of_step? fuel hs, hreverse, ← List.append_assoc]
      exact ⟨htold, hbound, Nat.le_trans hcalls hmore⟩

/-- The clock goes on while nothing happens. -/
theorem Told.elapse (h : Told options script made r) {now : Nat} (hnow : r.now ≤ now) :
    Told options script made { r with now := now } where
  options_eq := h.options_eq
  promised_eq := h.promised_eq
  inCourse := by
    rcases h.inCourse with ⟨wake, hphase, hwake⟩ | ⟨begun, n, hphase, hbegun, hrest⟩
    · exact .inl ⟨wake, hphase, Nat.le_trans hwake (Nat.add_le_add_right hnow _)⟩
    · exact .inr ⟨begun, n, hphase, Nat.le_trans hbegun hnow, hrest⟩
  failing_eq := h.failing_eq
  made_eq := h.made_eq

theorem Told.advance (h : Told options script made r) (milliseconds : Nat) :
    Told options script (made ++ (r.advance milliseconds).1) (r.advance milliseconds).2 := by
  have hnow : r.now ≤ r.now + milliseconds := Nat.le_add_right _ _
  obtain ⟨htold, hbound, -⟩ := h.runFor hnow (2 * milliseconds + 2)
  exact htold.elapse hbound

theorem Told.act (h : Told options script made r) (a : RehearsalAct) :
    Told options script (made ++ (r.act a).1) (r.act a).2 := by
  cases a with
  | tick target =>
    rw [Rehearsal.act]
    cases hs : r.step? target with
    | none =>
      show Told options script (made ++ []) r
      rw [List.append_nil]
      exact h
    | some next => exact (h.step hs).1
  | advance milliseconds => exact h.advance milliseconds

theorem Told.run (h : Told options script made r) (acts : List RehearsalAct) :
    Told options script (made ++ (r.run acts).1) (r.run acts).2 := by
  induction acts generalizing made r with
  | nil =>
    rw [Rehearsal.run, List.append_nil]
    exact h
  | cons a acts ih =>
    rw [Rehearsal.run, ← List.append_assoc]
    exact ih (h.act a)

end Told

/-- **Every run.** -/
theorem told_run (options : HeartbeatOptions) (script : List PingScript) (acts : List RehearsalAct) :
    Told options script ((start options script).run acts).1 ((start options script).run acts).2 :=
  (told_start options script).run acts

/-! ## Stopping and going on -/

section Ends

variable {options : HeartbeatOptions} {script : List PingScript} {made : List TimedReport}
  {r : Rehearsal}

/-- Of a rehearsal that has been stopped only the clock goes on. -/
theorem run_of_stopped (hphase : r.heartbeat.phase = .stopped) (acts : List RehearsalAct) :
    r.run acts = ([], { r with now := (r.run acts).2.now }) := by
  induction acts generalizing r with
  | nil => rfl
  | cons a acts ih =>
    have hstep : ∀ target, r.step? target = none := by
      intro target
      simp only [step?, hphase]
    have hact : ∃ now, r.act a = ([], { r with now := now }) := by
      cases a with
      | tick target =>
        refine ⟨r.now, ?_⟩
        rw [act, hstep]
        rfl
      | advance milliseconds =>
        refine ⟨r.now + milliseconds, ?_⟩
        show r.advance milliseconds = _
        rw [advance, runFor, hstep]
        rfl
    obtain ⟨now, hact⟩ := hact
    have hrest := ih (r := { r with now := now }) hphase
    have hreports : (({ r with now := now } : Rehearsal).run acts).1 = [] := congrArg Prod.fst hrest
    rw [run, hact]
    refine Prod.ext hreports ?_
    exact congrArg Prod.snd hrest

/-- A check that is due begins. -/
theorem Told.calls_lt_runFor {target wake : Nat} (h : Told options script made r)
    (hphase : r.heartbeat.phase = .resting wake) (hdue : wake ≤ target) (fuel : Nat) :
    r.calls < (Rehearsal.runFor target (fuel + 1) [] r).2.calls := by
  have hstep := step?_of_resting target hphase
  rw [if_pos hdue] at hstep
  obtain ⟨-, -, hcalls⟩ := (h.ping (t := wake) hphase).runFor hdue fuel
  rw [runFor_of_step? fuel hstep]
  exact Nat.lt_of_succ_le hcalls

/-- **A check that is under way ends in time, and the next one begins** an interval after it. -/
theorem Told.calls_lt_advance (h : Told options script made r) :
    r.calls < (r.advance (options.timeout + options.interval)).2.calls := by
  rcases h.inCourse with ⟨wake, hphase, hwake⟩ | ⟨begun, n, hphase, hbegun, hcalls, hcoming⟩
  · rw [h.options_eq] at hwake
    exact h.calls_lt_runFor hphase (by omega) _
  · -- first the check that is under way ends
    let target := r.now + (options.timeout + options.interval)
    obtain ⟨reports, r', hstep, hphase'⟩ : ∃ reports r', r.step? target = some (reports, r') ∧
        r'.heartbeat.phase =
          .resting (begun + (promised script n).lasts options.timeout + options.interval) := by
      have hlasts := (promised script n).lasts_le options.timeout
      rw [h.options_eq] at hphase
      rw [step?_of_checking target hphase hcoming, if_pos (by omega), ← h.options_eq]
      exact ⟨_, _, rfl, rfl⟩
    have hlasts := (promised script n).lasts_le options.timeout
    obtain ⟨hnext, -, hle, -⟩ := h.step hstep
    have hdue : begun + (promised script n).lasts options.timeout + options.interval ≤ target := by omega
    have hlt := hnext.calls_lt_runFor hphase' hdue (2 * (options.timeout + options.interval))
    rw [Rehearsal.advance, runFor_of_step? _ hstep]
    exact Nat.lt_of_le_of_lt hle hlt

end Ends

/-- **What is reported of a rehearsal**, and what comes behind it. -/
structure Reported (options : HeartbeatOptions) (script : List PingScript) (made : List TimedReport)
    (r : Rehearsal) : Prop where
  options_eq : r.heartbeat.options = options
  /-- The reports tell of the checks that have come to their end. -/
  tells : Heartbeat.Tells options.report options.timeout (r.outcomes script) (made.map Prod.snd)
  /-- These are the checks of all pings that have begun, except for one that is under way. -/
  calls_eq : r.calls = r.concluded ∨
    r.calls = r.concluded + 1 ∧ ∃ deadline, r.heartbeat.phase = .checking deadline
  /-- If it is stopped now nothing more is reported, also of a check that is under way, and no further
  ping begins. -/
  stopped : ∀ more, r.stop.run more = ([], { r.stop with now := (r.stop.run more).2.now })
  /-- If it is not stopped another ping begins, whatever has become of those before. -/
  goesOn : r.calls < (r.advance (options.timeout + options.interval)).2.calls

theorem Told.reported {options : HeartbeatOptions} {script : List PingScript} {made : List TimedReport}
    {r : Rehearsal} (h : Told options script made r) : Reported options script made r where
  options_eq := h.options_eq
  tells := by
    rw [h.made_eq]
    exact Heartbeat.tells_judgeAll options.report options.timeout _
  calls_eq := by
    rcases h.inCourse with ⟨wake, hphase, -⟩ | ⟨begun, n, hphase, -, hcalls, -⟩
    · exact .inl (by simp [concluded, hphase])
    · exact .inr ⟨by simp [concluded, hphase, hcalls], _, hphase⟩
  stopped := run_of_stopped rfl
  goesOn := h.calls_lt_advance

/-- **Whatever the host does about the pings, and wherever the heartbeat is stopped**, the reports are those
that the policy promises for the checks that have come to their end. -/
theorem reported_run (options : HeartbeatOptions) (script : List PingScript) (acts : List RehearsalAct) :
    Reported options script ((start options script).run acts).1 ((start options script).run acts).2 :=
  (told_run options script acts).reported

/-- A ping that is never answered is reported when its time is up, and the one behind it only if the
heartbeat is not stopped before its answer has come. -/
example :
    let r := start ⟨5, 20, .everyFailure⟩ [⟨none, .answered⟩, ⟨some 3, .failed .connectionClosed⟩]
    (r.run [.advance 31]).1 = [(25, .timedOut 20)] ∧
      (r.run [.advance 33]).1 = [(25, .timedOut 20), (33, .rejected .connectionClosed)] := by decide

end Rehearsal

end SessionMux
