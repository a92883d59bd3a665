import Mathlib.Data.List.ReduceOption
import Mathlib.Data.List.SplitBy
import SessionMux.Heartbeat.Basic

/-!
# What is reported of checks

A heartbeat remembers of its checks only whether the last one failed. From this it decides what to report:
every failed check, or only those that begin a run of failures. So what is reported of a list of outcomes
can be told without the heartbeat, from the list alone: the reasons of all that failed, or the reason of
the first in each run of failures.

* `CheckOutcome.isFailed`, `checkRuns` — failed checks, and the runs that a list of outcomes falls into.
* `Heartbeat.judge_eq` — what is remembered after a check is whether it failed, under both policies.
* `Heartbeat.reduceOption_everyFailure`, `reduceOption_onTransition` — what is reported.
* `getElem?_judgeAll` — what is reported of each single check.
* `Heartbeat.Tells`, **`tells_judgeAll`** — the reports tell of the outcomes what the policy promises.
-/

namespace SessionMux

/-- The check has failed. -/
def CheckOutcome.isFailed (o : CheckOutcome) : Bool := o != .answered

/-- Two checks have both failed, or have both been answered. -/
def CheckOutcome.alike (o o' : CheckOutcome) : Bool := o.isFailed == o'.isFailed

/-- The longest runs of checks that are alike. -/
def checkRuns (outcomes : List CheckOutcome) : List (List CheckOutcome) :=
  outcomes.splitBy CheckOutcome.alike

theorem CheckOutcome.reason?_of_answered {o : CheckOutcome} (h : o.isFailed = false) (timeout : Nat) :
    o.reason? timeout = none := by
  cases o with
  | answered => rfl
  | failed fault => cases h
  | timedOut => cases h

/-- The reason of a check that has failed is its own. -/
theorem CheckOutcome.reason?_eq_some {o : CheckOutcome} {timeout : Nat} {r : DisconnectReason} :
    o.reason? timeout = some r ↔
      (o = .timedOut ∧ r = .timedOut timeout) ∨ ∃ fault, o = .failed fault ∧ r = .rejected fault := by
  cases o with
  | answered => simp [reason?]
  | failed fault => simp [reason?, eq_comm]
  | timedOut => simp [reason?, eq_comm]

namespace Heartbeat

variable {policy : ReportPolicy} {timeout : Nat} {failing : Bool} {o : CheckOutcome}
  {l l' : List CheckOutcome}

/-- **What a check does**: it is reported if it failed, unless only transitions are and the one before
failed too; and what is remembered is whether it failed. -/
theorem judge_eq : judge policy timeout failing o =
    (if policy = .onTransition ∧ failing = true then none else o.reason? timeout, o.isFailed) := by
  cases o <;> cases policy <;> cases failing <;> rfl

theorem judgeAll_cons : judgeAll policy timeout failing (o :: l) =
    (if policy = .onTransition ∧ failing = true then none else o.reason? timeout) ::
      judgeAll policy timeout o.isFailed l := by
  rw [judgeAll, judge_eq]

/-- Whether the last check failed, given whether the one before them all did. -/
def lastFailed (failing : Bool) (l : List CheckOutcome) : Bool :=
  l.getLast?.elim failing CheckOutcome.isFailed

theorem lastFailed_cons : lastFailed failing (o :: l) = lastFailed o.isFailed l := by
  cases l with
  | nil => rfl
  | cons o' l => simp [lastFailed, List.getLast?_cons]

theorem judgeAll_append : judgeAll policy timeout failing (l ++ l') =
    judgeAll policy timeout failing l ++ judgeAll policy timeout (lastFailed failing l) l' := by
  induction l generalizing failing with
  | nil => rfl
  | cons o l ih => rw [List.cons_append, judgeAll_cons, judgeAll_cons, ih, lastFailed_cons, List.cons_append]

/-- One check more. -/
theorem judgeAll_concat : judgeAll policy timeout failing (l ++ [o]) =
    judgeAll policy timeout failing l ++ [(judge policy timeout (lastFailed failing l) o).1] := by
  rw [judgeAll_append, judgeAll_cons, judge_eq]
  rfl

/-! ## All checks together -/

/-- **Under the one policy every failed check is reported.** -/
theorem reduceOption_everyFailure :
    (judgeAll .everyFailure timeout failing l).reduceOption = l.filterMap (CheckOutcome.reason? timeout) := by
  induction l generalizing failing with
  | nil => rfl
  | cons o l ih =>
    rw [judgeAll_cons, if_neg (by simp), List.filterMap_cons]
    cases o.reason? timeout with
    | none => exact (List.reduceOption_cons_of_none _).trans ih
    | some r => rw [List.reduceOption_cons_of_some, ih]

/-- Nothing is reported while checks are answered. -/
theorem reduceOption_of_answered (hl : ∀ o ∈ l, o.isFailed = false) :
    (judgeAll policy timeout failing l).reduceOption = [] := by
  induction l generalizing failing with
  | nil => rfl
  | cons o l ih =>
    obtain ⟨ho, hl⟩ := List.forall_mem_cons.mp hl
    rw [judgeAll_cons, CheckOutcome.reason?_of_answered ho, ite_self, List.reduceOption_cons_of_none]
    exact ih hl

/-- Nothing is reported while checks go on to fail. -/
theorem reduceOption_of_failing (timeout : Nat) (hl : ∀ o ∈ l, o.isFailed = true) :
    (judgeAll .onTransition timeout true l).reduceOption = [] := by
  induction l with
  | nil => rfl
  | cons o l ih =>
    obtain ⟨ho, hl⟩ := List.forall_mem_cons.mp hl
    rw [judgeAll_cons, if_pos ⟨rfl, rfl⟩, List.reduceOption_cons_of_none, ho]
    exact ih hl

/-- The checks of a run are alike. -/
theorem isFailed_of_run (h : (o :: l).IsChain fun o o' => o.alike o') :
    ∀ o' ∈ l, o'.isFailed = o.isFailed := by
  induction l generalizing o with
  | nil =>
    intro o' ho'
    cases ho'
  | cons o₁ l ih =>
    obtain ⟨hfirst, hrest⟩ := List.isChain_cons_cons.mp h
    have hsame : o₁.isFailed = o.isFailed := (eq_of_beq hfirst).symm
    refine List.forall_mem_cons.mpr ⟨hsame, ?_⟩
    intro o' ho'
    exact (ih hrest o' ho').trans hsame

/-- **One run** is reported with the reason of its first check, if a new run of failures may begin
there. -/
theorem reduceOption_run (timeout : Nat) (h : (o :: l).IsChain fun o o' => o.alike o')
    (hstart : o.isFailed = true → failing = false) :
    (judgeAll .onTransition timeout failing (o :: l)).reduceOption = (o.reason? timeout).toList := by
  have halike := isFailed_of_run h
  rw [judgeAll_cons]
  cases ho : o.isFailed with
  | false =>
    rw [CheckOutcome.reason?_of_answered ho, ite_self, List.reduceOption_cons_of_none]
    exact reduceOption_of_answered fun o' ho' => (halike o' ho').trans ho
  | true =>
    have hrest := reduceOption_of_failing timeout fun o' ho' => (halike o' ho').trans ho
    rw [hstart ho, if_neg (by simp)]
    cases o.reason? timeout with
    | none => exact (List.reduceOption_cons_of_none _).trans hrest
    | some r =>
      rw [List.reduceOption_cons_of_some, hrest]
      rfl

/-- Runs of which neighbours differ are reported one by one, if a run of failures that comes first may
begin there. -/
theorem reduceOption_runs (timeout : Nat) {runs : List (List CheckOutcome)} (hne : [] ∉ runs)
    (halike : ∀ run ∈ runs, run.IsChain fun o o' => o.alike o')
    (hdiffer : runs.IsChain fun a b => ∃ ha hb, (a.getLast ha).alike (b.head hb) = false)
    (hstart : ∀ run ∈ runs.head?, ∀ o ∈ run.head?, o.isFailed = true → failing = false) :
    (judgeAll .onTransition timeout failing runs.flatten).reduceOption =
      runs.filterMap fun run => run.head?.bind (CheckOutcome.reason? timeout) := by
  induction runs generalizing failing with
  | nil => rfl
  | cons run runs ih =>
    cases run with
    | nil => exact absurd List.mem_cons_self hne
    | cons o run =>
      have hnext : ∀ next ∈ runs.head?, ∀ o' ∈ next.head?, o'.isFailed = true →
          lastFailed failing (o :: run) = false := by
        intro next hnext o' ho' hfailed
        obtain ⟨ha, hb, hdiff⟩ := (List.isChain_cons.mp hdiffer).1 next hnext
        rw [List.head_of_mem_head? ho', CheckOutcome.alike, hfailed] at hdiff
        rw [lastFailed, List.getLast?_eq_some_getLast ha]
        simpa using hdiff
      have hrest := ih (fun h => hne (List.mem_cons_of_mem _ h))
        (fun r hr => halike r (List.mem_cons_of_mem _ hr)) hdiffer.tail hnext
      have hfirst := reduceOption_run timeout (halike _ List.mem_cons_self)
        (hstart _ rfl o rfl)
      rw [List.flatten_cons, judgeAll_append, List.reduceOption_append, hfirst, hrest,
        List.filterMap_cons, List.head?_cons, Option.bind_some]
      cases o.reason? timeout <;> rfl

/-- **Under the other policy every run of failures is reported**, with the reason of its first check. -/
theorem reduceOption_onTransition : (judgeAll .onTransition timeout false l).reduceOption =
    (checkRuns l).filterMap fun run => run.head?.bind (CheckOutcome.reason? timeout) := by
  have hruns : (judgeAll .onTransition timeout false (checkRuns l).flatten).reduceOption = _ :=
    reduceOption_runs timeout (List.nil_notMem_splitBy _ l) (fun _ => List.isChain_of_mem_splitBy)
      (List.isChain_getLast_head_splitBy _ l) (fun _ _ _ _ _ => rfl)
  rwa [checkRuns, List.flatten_splitBy] at hruns

/-! ## Single checks -/

theorem getElem?_judgeAll (i : Nat) : (judgeAll policy timeout failing l)[i]? =
    l[i]?.map fun o => if policy = .onTransition ∧ lastFailed failing (l.take i) = true then none
      else o.reason? timeout := by
  induction l generalizing failing i with
  | nil => rfl
  | cons o l ih =>
    rw [judgeAll_cons]
    cases i with
    | zero => rfl
    | succ i => rw [List.getElem?_cons_succ, List.getElem?_cons_succ, ih, List.take_succ_cons, lastFailed_cons]

/-- **What reports tell of the outcomes of checks.** -/
structure Tells (policy : ReportPolicy) (timeout : Nat) (outcomes : List CheckOutcome)
    (reports : List DisconnectReason) : Prop where
  /-- Every failed check is reported once, in order. -/
  everyFailure : policy = .everyFailure → reports = outcomes.filterMap (CheckOutcome.reason? timeout)
  /-- Every run of failures is reported once, in order, with the reason of its first check. -/
  onTransition : policy = .onTransition →
    reports = (checkRuns outcomes).filterMap fun run => run.head?.bind (CheckOutcome.reason? timeout)
  /-- Each report belongs to a check of its own, in order: it is what was `said` of it. -/
  own : ∃ said : List (Option DisconnectReason), said.length = outcomes.length ∧
    reports = said.reduceOption ∧
    -- it gives the reason of the check
    (∀ (i : Nat) (r : DisconnectReason), said[i]? = some (some r) →
      (outcomes[i]? = some .timedOut ∧ r = .timedOut timeout) ∨
        ∃ fault, outcomes[i]? = some (.failed fault) ∧ r = .rejected fault) ∧
    -- and between two of them a ping has been answered
    (policy = .onTransition → ∀ (i j : Nat) (r r' : DisconnectReason), i < j →
      said[i]? = some (some r) → said[j]? = some (some r') →
        ∃ k, i < k ∧ k < j ∧ outcomes[k]? = some .answered)

theorem length_judgeAll : (judgeAll policy timeout failing l).length = l.length := by
  induction l generalizing failing with
  | nil => rfl
  | cons o l ih => rw [judgeAll_cons, List.length_cons, List.length_cons, ih]

/-- A check that is said to have failed has. -/
theorem getElem?_of_said {i : Nat} {r : DisconnectReason}
    (h : (judgeAll policy timeout failing l)[i]? = some (some r)) :
    ∃ o, l[i]? = some o ∧ o.reason? timeout = some r ∧
      ¬ (policy = .onTransition ∧ lastFailed failing (l.take i) = true) := by
  rw [getElem?_judgeAll] at h
  obtain ⟨o, ho, hsaid⟩ := Option.map_eq_some_iff.mp h
  split at hsaid
  · cases hsaid
  · rename_i hnot
    exact ⟨o, ho, hsaid, hnot⟩

/-- Before a check that is reported as a transition a ping has been answered, unless it is the first. -/
theorem getElem?_before_transition {i j : Nat} {r r' : DisconnectReason} (hij : i < j)
    (hi : (judgeAll .onTransition timeout failing l)[i]? = some (some r))
    (hj : (judgeAll .onTransition timeout failing l)[j]? = some (some r')) :
    ∃ k, i < k ∧ k < j ∧ l[k]? = some .answered := by
  obtain ⟨o, ho, hreason, -⟩ := getElem?_of_said hi
  obtain ⟨o', ho', -, hnot⟩ := getElem?_of_said hj
  obtain ⟨k, rfl⟩ : ∃ k, j = k + 1 := ⟨j - 1, by omega⟩
  have hlt : k < l.length := by
    obtain ⟨hk, -⟩ := List.getElem?_eq_some_iff.mp ho'
    omega
  have hlast : lastFailed failing (l.take (k + 1)) = l[k].isFailed := by
    rw [lastFailed, List.take_succ_eq_append_getElem hlt, List.getLast?_concat]
    rfl
  have hanswered : l[k].isFailed = false := by
    rw [hlast] at hnot
    simpa using hnot
  have hk : l[k]? = some .answered := by
    rw [List.getElem?_eq_getElem hlt]
    simpa [CheckOutcome.isFailed] using hanswered
  refine ⟨k, Nat.lt_of_le_of_ne (by omega) ?_, Nat.lt_succ_self k, hk⟩
  -- the check that is reported first has failed
  intro heq
  subst heq
  cases ho.symm.trans hk
  cases hreason

/-- **The reports of a heartbeat tell of its checks what they should.** -/
theorem tells_judgeAll (policy : ReportPolicy) (timeout : Nat) (l : List CheckOutcome) :
    Tells policy timeout l (judgeAll policy timeout false l).reduceOption where
  everyFailure hp := by
    subst hp
    exact reduceOption_everyFailure
  onTransition hp := by
    subst hp
    exact reduceOption_onTransition
  own := by
    refine ⟨judgeAll policy timeout false l, length_judgeAll, rfl, ?_, ?_⟩
    · intro i r hi
      obtain ⟨o, ho, hreason, -⟩ := getElem?_of_said hi
      rcases CheckOutcome.reason?_eq_some.mp hreason with ⟨rfl, hr⟩ | ⟨fault, rfl, hr⟩
      · exact .inl ⟨ho, hr⟩
      · exact .inr ⟨fault, ho, hr⟩
    · intro hp i j r r' hij hi hj
      subst hp
      exact getElem?_before_transition hij hi hj

/-- Of two runs of failures the reasons that begin them are reported. -/
example : (judgeAll .onTransition 20 false
    [.timedOut, .failed .connectionClosed, .answered, .failed .connectionClosed]).reduceOption =
    [.timedOut 20, .rejected .connectionClosed] := by decide

end Heartbeat

end SessionMux
