import SessionMux.Program.Session
import SessionMux.Proofs.Hub.Closing
import SessionMux.Proofs.Hub.WireOrder

/-!
# How a watch ends

A watch ends with the connection, which is a good end, or with a report of the monitor, which is not.
The end of the connection fails the calls that wait for a reply, and the ping of the monitor is such a
call. So the monitor may have reported the end of the connection by the time at which the program looks,
and then it is open which of the two the program sees.

* `Course`, `CourseAct`, `Course.run` — the program among pump, inbound task, monitor, host and clock.
* `Follows`, `follows_run` — a watch goes on, or has ended well, or with a report.
* `Course.Watching`, **`watching_act`** — what holds as long as a watch goes on.
* `Ending.exists_closed` — behind the end of the host the connection comes to its end.
* `Ending.exists_undecided` — the monitor reports the end of the connection.
* **`watch_run`** — so the end of a watch is good unless something has been reported, and once the host
  has ended the connection it may be either.
-/

namespace SessionMux

/-- A program at its host, and the clock. -/
structure Course where
  session : Session
  now : Nat := 0

/-- What can happen. -/
inductive CourseAct where
  /-- Somebody takes a turn. -/
  | turn (t : SessionTurn)
  /-- Milliseconds pass. -/
  | elapse (milliseconds : Nat)
  /-- The host puts something in. -/
  | arrive (d : Delivery)
  /-- The host puts in nothing more. -/
  | hostFinish
  /-- The host takes out nothing more. -/
  | hostLeave

namespace Course

/-- The state of the program, with the rest as it is. -/
def withSession (c : Course) (s : Session) : Course := { c with session := s }

/-- Something happens; a turn of somebody who has to wait changes nothing. -/
def act (c : Course) : CourseAct → Course
  | .turn t =>
    match c.session.step? t c.now with
    | some s => c.withSession s
    | none => c
  | .elapse milliseconds => { c with now := c.now + milliseconds }
  | .arrive d => c.withSession { c.session with fromHost := (c.session.fromHost.offer d).2 }
  | .hostFinish => c.withSession { c.session with fromHost := c.session.fromHost.finish }
  | .hostLeave => c.withSession { c.session with toHost := c.session.toHost.abandon }

/-- One thing happens after another. -/
def run (c : Course) (acts : List CourseAct) : Course := acts.foldl act c

theorem run_append (c : Course) (acts more : List CourseAct) :
    c.run (acts ++ more) = (c.run acts).run more := List.foldl_append

theorem run_concat (c : Course) (acts : List CourseAct) (a : CourseAct) :
    c.run (acts ++ [a]) = (c.run acts).act a := run_append c acts [a]

/-- A watch with a monitor, right after the program has connected. -/
def watch (settings : Settings) : Course := { session := .start settings (.watch false) 0 }

/-- The monitor has reported this in the course of `acts`. -/
def Reported (c : Course) (acts : List CourseAct) (r : DisconnectReason) : Prop :=
  ∃ before after, acts = before ++ after ∧ r ∈ (c.run before).session.reports

theorem Reported.concat {c : Course} {acts : List CourseAct} {r : DisconnectReason}
    (h : c.Reported acts r) (a : CourseAct) : c.Reported (acts ++ [a]) r := by
  obtain ⟨before, after, rfl, hr⟩ := h
  exact ⟨before, after ++ [a], List.append_assoc before after [a], hr⟩

/-! ## What a watch comes to -/

/-- A watch goes on, or it has come to a good end or to one that has been reported. -/
def Follows (reported : DisconnectReason → Prop) : Errand → Prop
  | .watching => True
  | .calling _ => False
  | .closing r _ | .done r => r = .ok () ∨ ∃ reason, reported reason ∧ r = .error reason.fault

theorem Follows.mono {reported reported' : DisconnectReason → Prop} {e : Errand}
    (h : Follows reported e) (hle : ∀ r, reported r → reported' r) : Follows reported' e := by
  have hend : ∀ {r : Except MuxFault Unit},
      (r = .ok () ∨ ∃ reason, reported reason ∧ r = .error reason.fault) →
      r = .ok () ∨ ∃ reason, reported' reason ∧ r = .error reason.fault := by
    rintro r (hok | ⟨reason, hreason, hr⟩)
    · exact .inl hok
    · exact .inr ⟨reason, hle reason hreason, hr⟩
  cases e with
  | watching => trivial
  | calling c => exact h
  | closing r deadline => exact hend h
  | done r => exact hend h

/-- Only the program goes on with its errand. -/
theorem errand_step? {s s' : Session} {t : SessionTurn} {now : Nat}
    (ht : ∀ looksFor, t ≠ .program looksFor) (hs : s.step? t now = some s') : s'.errand = s.errand := by
  cases t with
  | pump t =>
    simp only [Session.step?] at hs
    split at hs <;> cases hs
    rfl
  | inbound =>
    simp only [Session.step?] at hs
    split at hs <;> cases hs
    rfl
  | monitor =>
    simp only [Session.step?] at hs
    split at hs
    · cases hs
    · split at hs <;> cases hs
      rfl
  | program looksFor => exact absurd rfl (ht looksFor)

/-- **The turn of the program**: it ends the watch with what it finds, and goes on to its end. -/
theorem follows_goOn? {s s' : Session} {now : Nat} {looksFor : WatchEnd}
    {reported : DisconnectReason → Prop} (h : Follows reported s.errand)
    (hreports : ∀ r ∈ s.reports, reported r) (hs : s.goOn? now looksFor = some s') :
    Follows reported s'.errand := by
  unfold Session.goOn? at hs
  split at hs
  · split at hs
    · split at hs <;> cases hs
      exact .inl rfl
    · rename_i r reports heq
      cases hs
      exact .inr ⟨r, hreports r (by rw [heq]; exact List.mem_cons_self), rfl⟩
    · cases hs
  · rename_i c heq
    rw [heq] at h
    exact h.elim
  · rename_i result deadline heq
    rw [heq] at h
    split at hs <;> cases hs
    exact h
  · cases hs

theorem follows_run (c : Course) (h : c.session.errand = .watching) (acts : List CourseAct) :
    Follows (c.Reported acts) (c.run acts).session.errand := by
  -- acts are added at the end, where what has been reported stays reported
  induction acts using List.reverseRecOn with
  | nil =>
    show Follows _ c.session.errand
    rw [h]
    trivial
  | append_singleton acts a ih =>
    rw [run_concat]
    have hstay := ih.mono fun r hr => hr.concat a
    cases a with
    | turn t =>
      rw [act]
      split
      · rename_i s hs
        by_cases ht : ∃ looksFor, t = .program looksFor
        · obtain ⟨looksFor, rfl⟩ := ht
          refine follows_goOn? hstay (fun r hr => ?_) hs
          exact ⟨acts, [_], rfl, hr⟩
        · show Follows _ s.errand
          rw [errand_step? (fun looksFor heq => ht ⟨looksFor, heq⟩) hs]
          exact hstay
      · exact hstay
    | elapse milliseconds => exact hstay
    | arrive d => exact hstay
    | hostFinish => exact hstay
    | hostLeave => exact hstay

end Course

/-! ## What a monitor can do in one step -/

namespace Outbox

variable {τ : Type} {b : Outbox τ}

theorem sound_proceed (h : b.replies.Sound) (m : OutboundMessage) (c : Call) :
    (b.proceed m c).2.replies.Sound := by
  rw [proceed]
  split
  · rename_i b' ht
    exact World.sound_of_keeps h (Later.transmit ht).keeps
  · exact h.leave c.wait.slot

/-- A call keeps the table of replies sound. -/
theorem sound_call (h : b.replies.Sound) (kind : CallKind) (session : Option String) (r : Request)
    (now : Nat) : (b.call kind session r now).2.replies.Sound := by
  rw [call]
  split
  rename_i id b₁ hissue
  have hb : b₁.replies.Sound := by
    cases hissue
    exact h
  have henlist := sound_enlist hb kind ⟨id, session, r⟩ now
  simp only
  split
  · rename_i c b₂ he
    rw [he] at henlist
    exact sound_proceed henlist _ c
  · rename_i f b₂ he
    rw [he] at henlist
    exact henlist

end Outbox

namespace Monitor

variable {τ : Type} {m m' : Monitor} {b b' : Outbox τ} {now : Nat} {report : Option DisconnectReason}

/-- The monitor rests, or has a ping out. -/
def Ready (m : Monitor) : Prop :=
  (∃ wake, m.heartbeat.phase = .resting wake) ∨
    ∃ deadline call, m.heartbeat.phase = .checking deadline ∧ m.ping = some call

/-- What holds of a step of a monitor. -/
structure Stepped (m : Monitor) (b : Outbox τ) (report : Option DisconnectReason) (m' : Monitor)
    (b' : Outbox τ) : Prop where
  ready : m'.Ready
  sound : b.replies.Sound → b'.replies.Sound
  closed : b.replies.closed = true → b'.replies.closed = true
  /-- The first check that fails is reported. -/
  failing : m'.heartbeat.failing = true → report ≠ none ∨ m.heartbeat.failing = true

/-- What the outcome of a check does is up to the heartbeat. -/
theorem report_conclude (m : Monitor) (now : Nat) (o : CheckOutcome) :
    (m.conclude now o).1 = (Heartbeat.judge m.heartbeat.options.report m.heartbeat.options.timeout
      m.heartbeat.failing o).1 := rfl

theorem failing_conclude (m : Monitor) (now : Nat) (o : CheckOutcome) :
    (m.conclude now o).2.heartbeat.failing = (Heartbeat.judge m.heartbeat.options.report
      m.heartbeat.options.timeout m.heartbeat.failing o).2 := rfl

/-- The monitor rests behind a check, and the first check that fails is reported. -/
theorem conclude_eq (m : Monitor) (now : Nat) (o : CheckOutcome) :
    (m.conclude now o).2.Ready ∧ ((m.conclude now o).2.heartbeat.failing = true →
      (m.conclude now o).1 ≠ none ∨ m.heartbeat.failing = true) := by
  refine ⟨.inl ⟨_, rfl⟩, ?_⟩
  rw [report_conclude, failing_conclude, Heartbeat.judge]
  split
  · exact fun h => absurd h Bool.false_ne_true
  · split
    · exact fun _ => .inl (Option.some_ne_none _)
    · split
      · rename_i hfailing
        exact fun _ => .inr hfailing
      · exact fun _ => .inl (Option.some_ne_none _)

theorem Stepped.of_conclude {o : CheckOutcome} (h : m.conclude now o = (report, m'))
    (hsound : b.replies.Sound → b'.replies.Sound)
    (hclosed : b.replies.closed = true → b'.replies.closed = true) : Stepped m b report m' b' := by
  have hconclude := conclude_eq m now o
  rw [h] at hconclude
  exact ⟨hconclude.1, hsound, hclosed, hconclude.2⟩

/-- **Every step of a monitor.** -/
theorem stepped_of_step? (hs : m.step? b now = some (report, m', b')) : Stepped m b report m' b' := by
  have hping : b.replies.Sound → (b.ping now).2.replies.Sound := fun h =>
    Outbox.sound_call h .ping none .ping now
  have habandon : ∀ c : Call, (b.replies.Sound → (b.abandon c).replies.Sound) ∧
      (b.replies.closed = true → (b.abandon c).replies.closed = true) := fun c =>
    ⟨fun h => h.leave c.wait.slot, (Replies.closed_leave b.replies c.wait.slot).trans⟩
  unfold step? at hs
  split at hs
  · rename_i wake _ hphase
    split at hs
    · split at hs
      · -- a check begins
        rename_i call b₂ hb
        cases hs
        rw [hb] at hping
        refine ⟨.inr ⟨_, call, rfl, rfl⟩, hping, fun hcl => ?_, .inr⟩
        have hfail : b.ping now = _ := Outbox.call_of_closed hcl .ping none .ping now
        rw [hfail] at hb
        cases hb
      · -- the ping cannot be sent
        rename_i f b₂ hb
        rw [hb] at hping
        split at hs
        rename_i report₁ m₁ hconclude
        cases hs
        refine .of_conclude hconclude hping fun hcl => ?_
        have hfail : b.ping now = _ := Outbox.call_of_closed hcl .ping none .ping now
        rw [hfail] at hb
        cases hb
        exact hcl
    · cases hs
  · rename_i deadline call hphase hcall
    split at hs
    · -- the ping has come to its end
      rename_i r b₂ hb
      split at hs
      rename_i report₁ m₁ hconclude
      cases hs
      obtain ⟨r₀, -, hr⟩ := Option.map_eq_some_iff.mp hb
      cases hr
      exact .of_conclude hconclude (habandon call).1 (habandon call).2
    · split at hs
      · -- the time of the check is up
        split at hs
        rename_i report₁ m₁ hconclude
        cases hs
        exact .of_conclude hconclude (habandon call).1 (habandon call).2
      · cases hs
  · cases hs

/-- Behind the end of the connection a check that begins is reported to have failed, unless one has been
before. -/
theorem step?_resting {wake : Nat} (hphase : m.heartbeat.phase = .resting wake) (hwake : wake ≤ now)
    (hfailing : m.heartbeat.failing = false) (hcl : b.replies.closed = true) :
    ∃ m' b', m.step? b now = some (some (.rejected .connectionClosed), m', b') := by
  have hping : b.ping now = _ := Outbox.call_of_closed hcl .ping none .ping now
  have hreport : (m.conclude now (.failed .connectionClosed)).1 = some (.rejected .connectionClosed) := by
    rw [report_conclude, hfailing]
    cases m.heartbeat.options.report <;> rfl
  refine ⟨(m.conclude now (.failed .connectionClosed)).2, b.issue.2, ?_⟩
  unfold step?
  simp only [hphase, if_pos hwake, hping, ← hreport]

/-- Behind the end of the connection a check that is going on ends at once. -/
theorem step?_checking {deadline : Nat} {call : Call} (hphase : m.heartbeat.phase = .checking deadline)
    (hcall : m.ping = some call) (hs : b.replies.Sound) (hcl : b.replies.closed = true) :
    ∃ report m' b', m.step? b now = some (report, m', b') ∧
      ∃ wake, m'.heartbeat.phase = .resting wake := by
  have hfinish : ∃ r, b.finish? now call = some (r, b.abandon call) := by
    rw [Outbox.finish?, Outbox.outcome?, hs.outcome?_eq hcl]
    exact ⟨_, rfl⟩
  obtain ⟨r, hfinish⟩ := hfinish
  refine ⟨(m.conclude now (outcome r)).1, (m.conclude now (outcome r)).2, b.abandon call, ?_, _, rfl⟩
  unfold step?
  simp only [hphase, hcall, hfinish]

end Monitor

/-- The pump leaves it to the writer to finish its pipe. -/
theorem Link.Pumps.writing_eq {l l' : Link} {i i' o o' : Pipe} {t : Turn}
    (hm : l.Pumps i o t l' i' o') : i'.writing = i.writing := by
  cases hm <;> rfl

namespace Course

/-! ## As long as a watch goes on -/

/-- **What holds as long as a watch goes on.** -/
structure Watching (c : Course) : Prop where
  errand_eq : c.session.errand = .watching
  sound : c.session.hub.outbox.replies.Sound
  /-- The inbound task closes the table of replies before it ends. -/
  closed_of : c.session.hub.phase.rank ≤ 1 → c.session.hub.outbox.replies.closed = true
  /-- There is a monitor, and it has reported something if its last check has failed. -/
  monitor : ∃ m, c.session.monitor = some m ∧ m.Ready ∧
    (m.heartbeat.failing = true → c.session.reports ≠ [])

section Watching

variable {c : Course}

theorem watching_watch (settings : Settings) : (watch settings).Watching :=
  ⟨rfl, Replies.sound_empty, fun hr => absurd hr (show ¬ 4 ≤ 1 by decide), _, rfl, .inl ⟨_, rfl⟩,
    fun hfails => absurd hfails Bool.false_ne_true⟩

/-- A step of the inbound task that brings it to its end closes the table of replies first. -/
theorem closed_of_moves {τ : Type} {h h' : Hub τ} {now : Nat} {n : List Notice}
    (hm : Hub.Moves now h n h') (hcl : h.phase.rank ≤ 1 → h.outbox.replies.closed = true)
    (hr : h'.phase.rank ≤ 1) : h'.outbox.replies.closed = true := by
  cases hm with
  | shut phase => rfl
  | finish phase => exact hcl (by rw [phase]; decide)
  | decode phase due => exact absurd hr (show ¬ 5 ≤ 1 by decide)
  | _ => exact absurd hr (by simp [InboundPhase.rank])

theorem watching_step? {s' : Session} {t : SessionTurn} (h : c.Watching)
    (hs : c.session.step? t c.now = some s') (herrand : s'.errand = .watching) :
    (c.withSession s').Watching := by
  obtain ⟨m, hm, hready, hfailing⟩ := h.monitor
  cases t with
  | pump t =>
    simp only [Session.step?] at hs
    split at hs <;> cases hs
    exact ⟨herrand, h.sound, h.closed_of, h.monitor⟩
  | inbound =>
    simp only [Session.step?] at hs
    split at hs
    · rename_i n hub hstep
      cases hs
      have hmoves := Hub.moves_of_step? hstep
      exact ⟨herrand, hmoves.sound h.sound, closed_of_moves hmoves h.closed_of, h.monitor⟩
    · cases hs
  | monitor =>
    simp only [Session.step?, hm] at hs
    split at hs
    · rename_i report m' b' hstep
      cases hs
      have hstepped := Monitor.stepped_of_step? hstep
      refine ⟨herrand, hstepped.sound h.sound, fun hr => hstepped.closed (h.closed_of hr), m', rfl,
        hstepped.ready, fun hfails => ?_⟩
      show c.session.reports ++ report.toList ≠ []
      rcases hstepped.failing hfails with hreport | hbefore
      · cases report with
        | none => exact absurd rfl hreport
        | some r => exact List.append_ne_nil_of_right_ne_nil _ (List.cons_ne_nil r [])
      · exact List.append_ne_nil_of_left_ne_nil (hfailing hbefore) _
    · cases hs
  | program looksFor =>
    -- the program ends the watch
    simp only [Session.step?] at hs
    unfold Session.goOn? at hs
    rw [h.errand_eq] at hs
    simp only at hs
    split at hs
    · split at hs <;> cases hs
      cases herrand
    · cases hs
      cases herrand
    · cases hs

theorem errand_of_goOn? {s s' : Session} {now : Nat} {looksFor : WatchEnd}
    (hs : s.goOn? now looksFor = some s') (herrand : s'.errand = .watching) : s.errand = .watching := by
  unfold Session.goOn? at hs
  split at hs
  · assumption
  · split at hs
    · cases hs
    · simp only at hs
      split at hs <;> cases hs <;> cases herrand
  · split at hs <;> cases hs
    cases herrand
  · cases hs

/-- A watch that has ended does not begin again. -/
theorem errand_of_act {a : CourseAct} (herrand : (c.act a).session.errand = .watching) :
    c.session.errand = .watching := by
  cases a with
  | turn t =>
    revert herrand
    rw [act]
    split
    · rename_i s hs
      intro herrand
      by_cases ht : ∃ looksFor, t = .program looksFor
      · obtain ⟨looksFor, rfl⟩ := ht
        exact errand_of_goOn? hs herrand
      · exact (errand_step? (fun looksFor heq => ht ⟨looksFor, heq⟩) hs).symm.trans herrand
    · exact fun herrand => herrand
  | _ => exact herrand

/-- **What holds as long as a watch goes on is kept.** -/
theorem watching_act (h : c.Watching) (a : CourseAct) (herrand : (c.act a).session.errand = .watching) :
    (c.act a).Watching := by
  cases a with
  | turn t =>
    revert herrand
    rw [act]
    split
    · rename_i s hs
      exact watching_step? h hs
    · exact fun _ => h
  | elapse milliseconds => exact ⟨h.errand_eq, h.sound, h.closed_of, h.monitor⟩
  | arrive d => exact ⟨h.errand_eq, h.sound, h.closed_of, h.monitor⟩
  | hostFinish => exact ⟨h.errand_eq, h.sound, h.closed_of, h.monitor⟩
  | hostLeave => exact ⟨h.errand_eq, h.sound, h.closed_of, h.monitor⟩

/-- A watch that goes on at the end of a run has gone on all along. -/
theorem watching_run (h : c.Watching) (acts : List CourseAct)
    (herrand : (c.run acts).session.errand = .watching) : (c.run acts).Watching := by
  induction acts using List.reverseRecOn with
  | nil => exact h
  | append_singleton acts a ih =>
    rw [run_concat] at herrand ⊢
    exact watching_act (ih (errand_of_act herrand)) a herrand

end Watching

/-! ## Behind the end of the host -/

/-- Hub, pipes and clock are those of the world. -/
structure Mirrors (c : Course) (w : World (List String)) : Prop where
  hub_eq : c.session.hub = w.hub
  toHub_eq : c.session.fromHost = w.toHub
  toHost_eq : c.session.toHost = w.toHost
  now_eq : c.now = w.now

/-- The watch goes on, nothing has been reported, and the host has ended the connection. -/
structure Ending (c : Course) : Prop extends Watching c where
  reports_eq : c.session.reports = []
  writing_eq : c.session.fromHost.writing = false

/-- The watch goes on, the connection has ended, and a report is out. -/
structure Undecided (c : Course) (reason : DisconnectReason) : Prop where
  errand_eq : c.session.errand = .watching
  closed : c.session.hub.isClosed = true
  reports_eq : c.session.reports = [reason]

section Ending

variable {c : Course} {w : World (List String)}

/-- What is recorded is not mirrored. -/
theorem Mirrors.act {a : Act (List String)} (hm : c.Mirrors (w.perform a)) : c.Mirrors (w.act a) where
  hub_eq := hm.hub_eq.trans (World.hub_act w a).symm
  toHub_eq := hm.toHub_eq.trans (World.toHub_act w a).symm
  toHost_eq := hm.toHost_eq.trans (World.toHost_act w a).symm
  now_eq := hm.now_eq.trans (World.now_act w a).symm

theorem Ending.inbound (h : c.Ending) (hm : c.Mirrors w) :
    (c.act (.turn .inbound)).Ending ∧ (c.act (.turn .inbound)).Mirrors (w.act .inbound) := by
  have hwatching := watching_act h.toWatching (.turn .inbound)
  cases hstep : c.session.hub.step? c.now with
  | none =>
    have hc : c.act (.turn .inbound) = c := by simp only [act, Session.step?, hstep]
    have hw : w.perform .inbound = w := by
      show w.inbound = w
      rw [World.inbound, ← hm.hub_eq, ← hm.now_eq, hstep]
    rw [hc]
    exact ⟨h, .act (by rw [hw]; exact hm)⟩
  | some p =>
    obtain ⟨n, hub⟩ := p
    have hc : c.act (.turn .inbound) = c.withSession { c.session with hub := hub } := by
      simp only [act, Session.step?, hstep]
    have hw : w.perform .inbound = { w with hub := hub }.record (n.filterMap Notice.happening?) := by
      show w.inbound = _
      rw [World.inbound, ← hm.hub_eq, ← hm.now_eq, hstep]
    rw [hc] at hwatching ⊢
    refine ⟨⟨hwatching h.errand_eq, h.reports_eq, h.writing_eq⟩, .act ?_⟩
    rw [hw]
    exact ⟨rfl, hm.toHub_eq, hm.toHost_eq, hm.now_eq⟩

theorem Ending.takeIn (h : c.Ending) (hm : c.Mirrors w) :
    (c.act (.turn (.pump .incoming))).Ending ∧
      (c.act (.turn (.pump .incoming))).Mirrors (w.act (.pump .incoming)) := by
  have hwatching := watching_act h.toWatching (.turn (.pump .incoming))
  cases hpump : c.session.hub.outbox.link.pump .incoming c.session.fromHost c.session.toHost with
  | none =>
    have hc : c.act (.turn (.pump .incoming)) = c := by simp only [act, Session.step?, hpump]
    have hw : w.perform (.pump .incoming) = w := by
      show w.pump .incoming = w
      rw [World.pump, ← hm.hub_eq, ← hm.toHub_eq, ← hm.toHost_eq, hpump]
    rw [hc]
    exact ⟨h, .act (by rw [hw]; exact hm)⟩
  | some p =>
    obtain ⟨l, i, o⟩ := p
    have hc : c.act (.turn (.pump .incoming)) = c.withSession { c.session with
        hub := { c.session.hub with outbox := { c.session.hub.outbox with link := l } }
        fromHost := i
        toHost := o } := by
      simp only [act, Session.step?, hpump]
    have hw : w.perform (.pump .incoming) =
        { w.withOutbox { w.hub.outbox with link := l } with toHub := i, toHost := o } := by
      show w.pump .incoming = _
      rw [World.pump, ← hm.hub_eq, ← hm.toHub_eq, ← hm.toHost_eq, hpump]
      rfl
    have hwriting := (Link.pumps_of_pump hpump).2.writing_eq
    rw [hc] at hwatching ⊢
    refine ⟨⟨hwatching h.errand_eq, h.reports_eq, hwriting.trans h.writing_eq⟩, .act ?_⟩
    rw [hw]
    exact ⟨by rw [World.withOutbox, ← hm.hub_eq]; rfl, rfl, rfl, hm.now_eq⟩

/-- What is done in the world on the way in can be done in the course. -/
theorem Ending.mirror (h : c.Ending) (hm : c.Mirrors w) {a : Act (List String)}
    (ha : a.isInward = true) : ∃ b, (c.act b).Ending ∧ (c.act b).Mirrors (w.act a) := by
  cases a with
  | inbound => exact ⟨_, h.inbound hm⟩
  | pump t =>
    cases t with
    | outgoing => cases ha
    | incoming => exact ⟨_, h.takeIn hm⟩
  | elapse milliseconds =>
    refine ⟨.elapse milliseconds, ⟨watching_act h.toWatching _ h.errand_eq, h.reports_eq,
      h.writing_eq⟩, .act ?_⟩
    exact ⟨hm.hub_eq, hm.toHub_eq, hm.toHost_eq, congrArg (· + milliseconds) hm.now_eq⟩
  | _ => cases ha

theorem Ending.mirror_run (h : c.Ending) (hm : c.Mirrors w) (acts : List (Act (List String)))
    (ha : ∀ a ∈ acts, a.isInward = true) :
    ∃ more, (c.run more).Ending ∧ (c.run more).Mirrors (w.run acts) := by
  induction acts generalizing c w with
  | nil => exact ⟨[], h, hm⟩
  | cons a acts ih =>
    obtain ⟨hact, hacts⟩ := List.forall_mem_cons.mp ha
    obtain ⟨b, h', hm'⟩ := h.mirror hm hact
    obtain ⟨more, hend⟩ := ih h' hm' hacts
    exact ⟨b :: more, hend⟩

/-- **Behind the end of the host the connection comes to its end**, and the watch still goes on. -/
theorem Ending.exists_closed (h : c.Ending) :
    ∃ more, (c.run more).Ending ∧ (c.run more).session.hub.isClosed = true := by
  let w : World (List String) := ⟨c.session.hub, c.session.fromHost, c.session.toHost, c.now, [], []⟩
  have hmirrors : c.Mirrors w := ⟨rfl, rfl, rfl, rfl⟩
  obtain ⟨acts, hinward, hrest⟩ := World.exists_rest w
  obtain ⟨more, hend, hm⟩ := h.mirror_run hmirrors acts hinward
  refine ⟨more, hend, ?_⟩
  rw [hm.hub_eq, Hub.isClosed]
  rcases Hub.waits_of_step? hrest.1 with ⟨-, -, hpumping⟩ | hphase
  · -- the pump would have something to take in, for the host has ended the connection
    have hwriting := (Link.items_of_pump hpumping hrest.2).2
    rw [← hm.toHub_eq] at hwriting
    exact absurd (hend.writing_eq.symm.trans hwriting) Bool.false_ne_true
  · rw [hphase]

theorem rank_of_isClosed {τ : Type} {h : Hub τ} (hclosed : h.isClosed = true) : h.phase.rank ≤ 1 := by
  rw [Hub.isClosed] at hclosed
  split at hclosed
  · rename_i hphase
    rw [hphase]
    decide
  · cases hclosed

theorem act_monitor {m m' : Monitor} {report : Option DisconnectReason} {b : Outbox (List String)}
    (hm : c.session.monitor = some m)
    (hs : m.step? c.session.hub.outbox c.now = some (report, m', b)) :
    c.act (.turn .monitor) = c.withSession { c.session with
      hub := { c.session.hub with outbox := b }
      monitor := some m'
      reports := c.session.reports ++ report.toList } := by
  simp only [act, Session.step?, hm, hs]

/-- Nothing has been reported, so no check has failed. -/
theorem Ending.not_failing (h : c.Ending) {m : Monitor} (hm : c.session.monitor = some m) :
    m.heartbeat.failing = false := by
  obtain ⟨m', hm', -, hfailing⟩ := h.monitor
  cases hm.symm.trans hm'
  exact Bool.eq_false_iff.mpr fun hfails => hfailing hfails h.reports_eq

/-- A step of the monitor reports something. -/
theorem Ending.undecided (h : c.Ending) (hclosed : c.session.hub.isClosed = true) {m m' : Monitor}
    {reason : DisconnectReason} {b : Outbox (List String)} (hm : c.session.monitor = some m)
    (hs : m.step? c.session.hub.outbox c.now = some (some reason, m', b)) :
    (c.act (.turn .monitor)).Undecided reason := by
  rw [act_monitor hm hs, h.reports_eq]
  exact ⟨h.errand_eq, hclosed, rfl⟩

/-- The next check fails, and is reported. -/
theorem Ending.exists_undecided_resting (h : c.Ending) (hclosed : c.session.hub.isClosed = true)
    {m : Monitor} (hm : c.session.monitor = some m) {wake : Nat}
    (hphase : m.heartbeat.phase = .resting wake) : ∃ more reason, (c.run more).Undecided reason := by
  have hend : (c.act (.elapse wake)).Ending :=
    ⟨watching_act h.toWatching _ h.errand_eq, h.reports_eq, h.writing_eq⟩
  obtain ⟨m', b, hs⟩ := Monitor.step?_resting hphase (Nat.le_add_left wake c.now) (h.not_failing hm)
    (h.closed_of (rank_of_isClosed hclosed))
  exact ⟨[.elapse wake, .turn .monitor], _, hend.undecided hclosed hm hs⟩

/-- **The monitor reports the end of the connection** while the watch still goes on. -/
theorem Ending.exists_undecided (h : c.Ending) (hclosed : c.session.hub.isClosed = true) :
    ∃ more reason, (c.run more).Undecided reason := by
  obtain ⟨m, hm, hready, -⟩ := h.monitor
  rcases hready with ⟨wake, hphase⟩ | ⟨deadline, call, hphase, hcall⟩
  · exact h.exists_undecided_resting hclosed hm hphase
  · obtain ⟨report, m', b, hs, ⟨wake, hphase'⟩⟩ := Monitor.step?_checking hphase hcall h.sound
      (h.closed_of (rank_of_isClosed hclosed))
    cases report with
    | some reason => exact ⟨[.turn .monitor], reason, h.undecided hclosed hm hs⟩
    | none =>
      -- the host has answered, and the monitor rests until the next check
      have hact := act_monitor hm hs
      rw [h.reports_eq] at hact
      have hend : (c.act (.turn .monitor)).Ending := by
        refine ⟨watching_act h.toWatching _ ?_, ?_, ?_⟩ <;> rw [hact]
        · exact h.errand_eq
        · rfl
        · exact h.writing_eq
      obtain ⟨more, hmore⟩ := hend.exists_undecided_resting (m := m') (by rw [hact]; exact hclosed)
        (by rw [hact]; rfl) hphase'
      exact ⟨.turn .monitor :: more, hmore⟩

end Ending

/-! ## The result -/

section Result

variable {c : Course} {reason : DisconnectReason}

/-- A program that has nothing more to wait for ends with its result. -/
theorem result?_closing {r : Except MuxFault Unit} {deadline : Nat}
    (herrand : c.session.errand = .closing r deadline) (hclosed : c.session.hub.isClosed = true)
    (looksFor : WatchEnd) : (c.act (.turn (.program looksFor))).session.result? = some r := by
  have hstep : c.session.step? (.program looksFor) c.now = some { c.session with errand := .done r } := by
    show c.session.goOn? c.now looksFor = _
    unfold Session.goOn?
    simp only [herrand, hclosed, Bool.true_or, if_true]
  simp only [act, hstep]
  rfl

/-- **A program that looks at the connection** ends well. -/
theorem Undecided.result?_hostGone (h : c.Undecided reason) :
    ((c.act (.turn (.program .hostGone))).act (.turn (.program .hostGone))).session.result? =
      some (.ok ()) := by
  have hstep : c.session.step? (.program .hostGone) c.now =
      some (c.session.endWatch c.now (.error .connectionClosed)) := by
    show c.session.goOn? c.now .hostGone = _
    unfold Session.goOn?
    simp only [h.errand_eq, h.closed, if_true]
  have hact : c.act (.turn (.program .hostGone)) =
      c.withSession (c.session.endWatch c.now (.error .connectionClosed)) := by
    simp only [act, hstep]
  rw [hact]
  have hclosed : (c.session.endWatch c.now (.error .connectionClosed)).hub.isClosed = true := h.closed
  exact result?_closing (c := c.withSession _) rfl hclosed .hostGone

/-- **A program that looks at the report** does not. -/
theorem Undecided.result?_unresponsive (h : c.Undecided reason) :
    ((c.act (.turn (.program .unresponsive))).act (.turn (.program .unresponsive))).session.result? =
      some (.error reason.fault) := by
  have hstep : c.session.step? (.program .unresponsive) c.now =
      some ({ c.session with reports := [] }.endWatch c.now (.error reason.fault)) := by
    show c.session.goOn? c.now .unresponsive = _
    unfold Session.goOn?
    simp only [h.errand_eq, h.reports_eq]
  have hact : c.act (.turn (.program .unresponsive)) =
      c.withSession ({ c.session with reports := [] }.endWatch c.now (.error reason.fault)) := by
    simp only [act, hstep]
  rw [hact]
  have hclosed : ({ c.session with reports := [] }.endWatch c.now (.error reason.fault)).hub.isClosed =
      true := h.closed
  exact result?_closing (c := c.withSession _) rfl hclosed .unresponsive

end Result

/-- The program looks at one of the two things that it waits for, and then goes on to its end. -/
def looks (e : WatchEnd) : List CourseAct := [.turn (.program e), .turn (.program e)]

/-- **How a watch ends** that has come to where `acts` have brought it. -/
structure Ends (c : Course) (acts : List CourseAct) : Prop where
  /-- It ends well, unless something has been reported. -/
  result_eq : ∀ r, (c.run acts).session.result? = some r →
    r = .ok () ∨ ∃ reason, c.Reported acts reason ∧ r = .error reason.fault
  /-- If it still goes on, and the host has ended the connection, it may end well or not, although nothing
  has been reported so far. -/
  either : (c.run acts).session.errand = .watching → (c.run acts).session.fromHost.writing = false →
    (c.run acts).session.reports = [] → ∃ (more : List CourseAct) (reason : DisconnectReason),
      (c.run (acts ++ more ++ looks .hostGone)).session.result? = some (.ok ()) ∧
      (c.run (acts ++ more ++ looks .unresponsive)).session.result? = some (.error reason.fault)

/-- **Every watch** with a monitor ends well unless something has been reported; and whenever the host
ends the connection it is left to the schedule how it ends. -/
theorem watch_run (settings : Settings) (acts : List CourseAct) : (watch settings).Ends acts where
  result_eq r hr := by
    have hfollows := follows_run (watch settings) rfl acts
    rw [Session.result?] at hr
    split at hr
    · rename_i r' herrand
      cases hr
      rw [herrand] at hfollows
      exact hfollows
    · cases hr
  either herrand hwriting hreports := by
    have hend : ((watch settings).run acts).Ending :=
      ⟨watching_run (watching_watch settings) acts herrand, hreports, hwriting⟩
    obtain ⟨more, hend', hclosed⟩ := hend.exists_closed
    obtain ⟨more', reason, hundecided⟩ := hend'.exists_undecided hclosed
    refine ⟨more ++ more', reason, ?_⟩
    have hrun : ∀ e, (watch settings).run (acts ++ (more ++ more') ++ looks e) =
        ((((watch settings).run acts).run more).run more').run (looks e) := by
      intro e
      rw [run_append, run_append, run_append]
    rw [hrun, hrun]
    exact ⟨hundecided.result?_hostGone, hundecided.result?_unresponsive⟩

/-- The host ends the connection while a ping is out that has neither failed nor timed out, and the watch
does not end well. -/
theorem watch_unresponsive :
    let before : List CourseAct := [.elapse 1000, .turn .monitor]
    let after : List CourseAct := [.hostFinish, .turn (.pump .incoming), .turn .inbound, .turn .inbound,
      .turn .inbound, .turn .inbound, .turn .monitor] ++ looks .unresponsive
    (((watch {}).run before).session.reports = [] ∧ ((watch {}).run before).session.result? = none) ∧
      ((watch {}).run (before ++ after)).session.result? =
        some (.error (.connection "host unresponsive: ping failed: Connection closed")) := by
  decide +kernel

end Course

end SessionMux
