import SessionMux.Proofs.Hub.Places
import SessionMux.Proofs.Message.Report
import SessionMux.Proofs.Program.Watch

/-!
# What a watch prints

A watch has one subscriber for each kind of hook, and all of them do the same: they print the event that
they are called for. Nobody else prints. So what has been printed, at any time and whoever has taken his
turn in whatever order, are the lines of the events that have been dispatched, in their order.

Which events these are is told without looking at the subscribers: the hooks of the messages that the
inbound task delivers and that answer no request.

A line says everything about its event and nothing else, and it is one line.

* `HookEvent.Faithful` — what is promised of a line.
* `Hub.dueHook?` — the hook of a message that no request takes.
* `Hub.Prints`, `deliver_of_prints` — the subscribers of a watch, and a delivery to them.
* `Course.served` — the events that are dispatched in the course of a run.
* **`printed_run`** — what has been printed are their lines, and these are faithful.
-/

namespace SessionMux

/-- **A faithful line**: JSON on one line from which the event can be told. -/
structure HookEvent.Faithful (e : HookEvent) (text : String) : Prop where
  oneLine : '\n' ∉ text.toList ∧ '\r' ∉ text.toList
  /-- It is an object with the name of the event, its session and an object for the hook, which has the
  fields of its kind and no others, and says of them what the hook says. -/
  parse_eq : ∃ fields, Json.parse text = some (.object [("event", .string e.hook.kind.name),
      ("session_id", .string e.session), ("hook", .object fields)]) ∧
    fields.map Prod.fst = e.hook.kind.fieldNames ∧
    Hook.ofJson? e.hook.kind (.object fields) = some e.hook
  recovered : (Json.parse text).bind HookEvent.ofJson? = some e

namespace HookEvent

theorem not_mem_line {c : Char} (hc : c < ' ') (e : HookEvent) : c ∉ e.line.toList := by
  intro hmem
  rw [line, Json.Value.line, String.toList_ofList] at hmem
  exact absurd (Json.plain_inline e.toJson c hmem) (Nat.not_le_of_lt hc)

/-- **The line of an event is faithful.** -/
theorem faithful_line (e : HookEvent) : e.Faithful e.line where
  oneLine := ⟨e.not_mem_line (by decide), e.not_mem_line (by decide)⟩
  parse_eq := by
    obtain ⟨fields, hhook, hnames⟩ := e.hook.toJson_eq_object
    refine ⟨fields, ?_, hnames, ?_⟩
    · rw [line, Json.parse_line, toJson, hhook]
    · rw [← hhook]
      exact recovers_hook e.hook
  recovered := by
    rw [line, Json.parse_line]
    exact recovers_hookEvent e

/-- Two different events never have the same line. -/
theorem line_injective {e e' : HookEvent} (h : e'.line = e.line) : e' = e := by
  have hjson : e'.toJson = e.toJson := Json.line_injective h
  have he := recovers_hookEvent e'
  rw [hjson, recovers_hookEvent e] at he
  exact (Option.some.inj he).symm

end HookEvent

/-! ## A hub that prints -/

namespace Hub

section Due

variable {τ : Type} {h : Hub τ} {m : InboundMessage}

/-- A request that has not been left waits for the message. -/
def isAwaited (h : Hub τ) (m : InboundMessage) : Bool :=
  m.inReplyTo.any fun id =>
    (h.outbox.replies.awaited? id).any fun s => (h.outbox.replies.slot? s).isSome

theorem isAwaited_iff : h.isAwaited m = true ↔ ∃ s, h.Answers m s := by
  simp only [isAwaited, Option.any_eq_true]
  constructor
  · rintro ⟨id, hid, s, hs, hsome⟩
    exact ⟨s, id, hid, hs, hsome⟩
  · rintro ⟨s, id, hid, hs, hsome⟩
    exact ⟨id, hid, s, hs, hsome⟩

/-- **The hook that is due to subscribers** when the message is delivered: its hook, unless a request
takes it. Whether there are any subscribers makes no difference. -/
def dueHook? (h : Hub τ) (m : InboundMessage) : Option HookEvent :=
  if h.isAwaited m then none else hookOf? m

/-- The hook that is due when the inbound task says what it has done. -/
def due? (h : Hub τ) : Notice → Option HookEvent
  | .decoded _ => none
  | .delivered m _ => h.dueHook? m

end Due

variable {h h' : Hub (List String)}

/-- Every kind of hook has one subscriber, and it prints. -/
def Prints (h : Hub (List String)) : Prop :=
  ∀ kind, (h.topics kind).entries = [(⟨1⟩, printHook)]

theorem prints_printAll (options : HubOptions) : ((start options []).printAll).Prints := by
  intro kind
  cases kind <;> rfl

/-- An event is printed. -/
theorem publish_of_prints (hp : h.Prints) (e : HookEvent) :
    h.publish e = ([(e.hook.kind, ⟨1⟩)],
      { h with outbox := { h.outbox with own := h.outbox.own ++ [e.line] } }) := by
  rw [publish_eq, Subscribers.ids, hp e.hook.kind]
  rfl

/-- **A delivery prints the hook** that is due, if there is one. -/
theorem deliver_of_prints (hp : h.Prints) (m : InboundMessage) :
    (h.deliver m).2.Prints ∧ (h.deliver m).2.outbox.own =
      h.outbox.own ++ (h.dueHook? m).toList.map HookEvent.line := by
  rw [dueHook?]
  split
  · rename_i hawaited
    obtain ⟨s, hs⟩ := isAwaited_iff.mp hawaited
    rw [(answered_of_answers hs).rest_eq]
    exact ⟨hp, (List.append_nil _).symm⟩
  · rename_i hawaited
    have hno : ∀ s, ¬ h.Answers m s := fun s hs => hawaited (isAwaited_iff.mpr ⟨s, hs⟩)
    have hshed : (h.shed m).Prints ∧ (h.shed m).outbox.own = h.outbox.own := by
      rw [(clears_shed m h).rest_eq]
      exact ⟨hp, rfl⟩
    rw [deliver_of_untaken (untaken_of_not_answers hno), ← hshed.2]
    cases hookOf? m with
    | none => exact ⟨hshed.1, (List.append_nil _).symm⟩
    | some e =>
      simp only [publish_of_prints hshed.1 e]
      exact ⟨hshed.1, rfl⟩

/-- **A step of the inbound task** prints the hooks that are due. -/
theorem prints_of_step? {now : Nat} {n : List Notice} (hp : h.Prints)
    (hs : h.step? now = some (n, h')) :
    h'.Prints ∧ h'.outbox.own = h.outbox.own ++ (n.filterMap h.due?).map HookEvent.line := by
  have hmoves := moves_of_step? hs
  cases hmoves with
  | deliver phase active =>
    rename_i m
    obtain ⟨hprints, hown⟩ := deliver_of_prints hp m
    refine ⟨hprints, hown.trans ?_⟩
    rw [List.filterMap_cons, due?]
    cases h.dueHook? m <;> rfl
  | _ => exact ⟨hp, (List.append_nil _).symm⟩

end Hub

/-! ## Nobody else prints -/

namespace Outbox

variable {τ : Type} {b b' : Outbox τ}

theorem own_transmit {m : OutboundMessage} (h : b.transmit m = .ok b') : b'.own = b.own := by
  obtain ⟨text, rfl⟩ := transmit_ok h
  rfl

theorem own_proceed (b : Outbox τ) (m : OutboundMessage) (c : Call) : (b.proceed m c).2.own = b.own := by
  rw [proceed]
  split
  · rename_i ht
    exact own_transmit ht
  · rfl

theorem own_enlist (b : Outbox τ) (kind : CallKind) (m : OutboundMessage) (now : Nat) :
    (b.enlist kind m now).2.own = b.own := by
  rw [enlist]
  split <;> rfl

theorem own_call (b : Outbox τ) (kind : CallKind) (session : Option String) (r : Request) (now : Nat) :
    (b.call kind session r now).2.own = b.own := by
  rw [call]
  split
  rename_i id b₁ hissue
  have hb : b₁.own = b.own := by
    cases hissue
    rfl
  have henlist := (own_enlist b₁ kind ⟨id, session, r⟩ now).trans hb
  simp only
  split
  · rename_i c b₂ he
    rw [he] at henlist
    exact (own_proceed b₂ _ c).trans henlist
  · rename_i f b₂ he
    rw [he] at henlist
    exact henlist

end Outbox

theorem Monitor.own_step? {τ : Type} {m m' : Monitor} {b b' : Outbox τ} {now : Nat}
    {report : Option DisconnectReason} (hs : m.step? b now = some (report, m', b')) : b'.own = b.own := by
  have hping : (b.ping now).2.own = b.own := b.own_call .ping none .ping now
  unfold step? at hs
  split at hs
  · split at hs
    · split at hs
      · rename_i hb
        cases hs
        rwa [hb] at hping
      · rename_i hb
        cases hs
        rwa [hb] at hping
    · cases hs
  · split at hs
    · rename_i hb
      cases hs
      obtain ⟨r, -, hr⟩ := Option.map_eq_some_iff.mp hb
      cases hr
      rfl
    · split at hs
      · cases hs
        rfl
      · cases hs
  · cases hs

theorem Monitor.own_drop {τ : Type} (m : Monitor) (b : Outbox τ) : (m.drop b).own = b.own := by
  rw [drop]
  split <;> rfl

/-- Ending a watch closes its hub. -/
theorem Session.endWatch_eq (s : Session) (now : Nat) (r : Except MuxFault Unit) :
    (s.endWatch now r).hub.topics = s.hub.topics ∧ (s.endWatch now r).printed = s.printed ∧
      ∃ result deadline, (s.endWatch now r).errand = .closing result deadline := by
  refine ⟨rfl, ?_, _, _, rfl⟩
  simp only [printed, endWatch, leave]
  split
  · exact Monitor.own_drop _ _
  · rfl

namespace Course

/-- A watch goes on or ends. -/
structure Printing (c : Course) : Prop where
  prints : c.session.hub.Prints
  notCalling : ∀ call, c.session.errand ≠ .calling call

/-- The hooks that an act dispatches. -/
def servedBy (c : Course) : CourseAct → List HookEvent
  | .turn .inbound =>
    match c.session.hub.step? c.now with
    | some (notices, _) => notices.filterMap c.session.hub.due?
    | none => []
  | _ => []

/-- **The hooks that are dispatched** in the course of a run: those that the inbound task delivers and no
request takes. -/
def served (c : Course) : List CourseAct → List HookEvent
  | [] => []
  | a :: acts => c.servedBy a ++ (c.act a).served acts

variable {c : Course}

theorem printing_start (settings : Settings) (noLiveness : Bool) :
    ({ session := .start settings (.watch noLiveness) 0 } : Course).Printing where
  prints := Hub.prints_printAll settings.hub
  notCalling := by simp [Session.start]

/-- A watch that ends leaves the subscribers and what has been printed as they are. -/
theorem printing_endWatch (h : c.Printing) {s : Session} (hhub : s.hub = c.session.hub)
    (r : Except MuxFault Unit) : (c.withSession (s.endWatch c.now r)).Printing ∧
      (s.endWatch c.now r).printed = c.session.printed := by
  obtain ⟨htopics, hprinted, result, deadline, herrand⟩ := s.endWatch_eq c.now r
  refine ⟨⟨fun kind => ?_, fun call hcall => ?_⟩, ?_⟩
  · show ((s.endWatch c.now r).hub.topics kind).entries = _
    rw [htopics, hhub]
    exact h.prints kind
  · cases herrand.symm.trans hcall
  · rw [hprinted, Session.printed, hhub]
    rfl

/-- The program only ends its watch, and waits until it is closed. -/
theorem printing_of_goOn? (h : c.Printing) {looksFor : WatchEnd} {s' : Session}
    (hs : c.session.goOn? c.now looksFor = some s') :
    (c.withSession s').Printing ∧ s'.printed = c.session.printed := by
  unfold Session.goOn? at hs
  split at hs
  · split at hs
    · split at hs <;> cases hs
      exact printing_endWatch h rfl _
    · rename_i r reports _
      cases hs
      exact printing_endWatch (s := { c.session with reports := reports }) h rfl _
    · cases hs
  · rename_i call heq
    exact absurd heq (h.notCalling call)
  · split at hs <;> cases hs
    exact ⟨⟨h.prints, by simp [withSession]⟩, rfl⟩
  · cases hs

/-- A turn of somebody else leaves the subscribers and what has been printed as they are. -/
theorem printing_of_step? (h : c.Printing) {t : SessionTurn} {s' : Session} (ht : t ≠ .inbound)
    (hs : c.session.step? t c.now = some s') :
    (c.withSession s').Printing ∧ s'.printed = c.session.printed := by
  cases t with
  | pump t =>
    simp only [Session.step?] at hs
    split at hs <;> cases hs
    exact ⟨⟨h.prints, h.notCalling⟩, rfl⟩
  | inbound => exact absurd rfl ht
  | monitor =>
    simp only [Session.step?] at hs
    split at hs
    · cases hs
    · split at hs
      · rename_i hstep
        cases hs
        exact ⟨⟨h.prints, h.notCalling⟩, Monitor.own_step? hstep⟩
      · cases hs
  | program looksFor => exact printing_of_goOn? h hs

/-- **Every act** prints the lines of the hooks that it dispatches. -/
theorem printing_act (h : c.Printing) (a : CourseAct) :
    (c.act a).Printing ∧
      (c.act a).session.printed = c.session.printed ++ (c.servedBy a).map HookEvent.line := by
  have hnone : c.session.printed = c.session.printed ++ [].map HookEvent.line :=
    (List.append_nil _).symm
  cases a with
  | turn t =>
    by_cases ht : t = .inbound
    · subst ht
      simp only [act, servedBy, Session.step?]
      cases hs : c.session.hub.step? c.now with
      | none => exact ⟨h, hnone⟩
      | some next =>
        obtain ⟨notices, hub⟩ := next
        obtain ⟨hprints, hown⟩ := Hub.prints_of_step? h.prints hs
        exact ⟨⟨hprints, h.notCalling⟩, hown⟩
    · have hserved : c.servedBy (.turn t) = [] := by
        cases t with
        | inbound => exact absurd rfl ht
        | _ => rfl
      rw [hserved, act]
      split
      · rename_i s hs
        obtain ⟨hprinting, hprinted⟩ := printing_of_step? h ht hs
        exact ⟨hprinting, hprinted.trans hnone⟩
      · exact ⟨h, hnone⟩
  | elapse milliseconds => exact ⟨⟨h.prints, h.notCalling⟩, hnone⟩
  | arrive d => exact ⟨⟨h.prints, h.notCalling⟩, hnone⟩
  | hostFinish => exact ⟨⟨h.prints, h.notCalling⟩, hnone⟩
  | hostLeave => exact ⟨⟨h.prints, h.notCalling⟩, hnone⟩

theorem printed_of_printing (h : c.Printing) (acts : List CourseAct) :
    (c.run acts).Printing ∧
      (c.run acts).session.printed = c.session.printed ++ (c.served acts).map HookEvent.line := by
  induction acts generalizing c with
  | nil => exact ⟨h, (List.append_nil _).symm⟩
  | cons a acts ih =>
    obtain ⟨hprinting, hprinted⟩ := printing_act h a
    rw [served, List.map_append, ← List.append_assoc, ← hprinted]
    exact ih hprinting

/-- **A watch prints one faithful line for each event that is dispatched**, in their order and nothing
else: at any time each kind of hook has its one subscriber, which prints. No two events have the same
line. -/
theorem printed_run (settings : Settings) (noLiveness : Bool) (acts : List CourseAct) :
    let c : Course := { session := .start settings (.watch noLiveness) 0 }
    (c.run acts).session.hub.Prints ∧
      (c.run acts).session.printed = (c.served acts).map HookEvent.line ∧
      ∀ e : HookEvent, e.Faithful e.line ∧ ∀ e', HookEvent.line e' = e.line → e' = e := by
  intro c
  obtain ⟨hprinting, hprinted⟩ := printed_of_printing (printing_start settings noLiveness) acts
  refine ⟨hprinting.prints, hprinted, fun e => ?_⟩
  exact ⟨e.faithful_line, fun e' => HookEvent.line_injective⟩

/-- The line of a prompt in a session that is called by two lines. -/
example : (HookEvent.mk "a\nb" (.prompt ⟨none⟩)).line =
    "\x7b\"event\":\"prompt\",\"session_id\":\"a\\nb\",\"hook\":\x7b\"context\":null\x7d\x7d" := by decide

end Course

end SessionMux
