import SessionMux.Proofs.Hub.Requests

/-!
# What goes out of what is asked of a hub

Requests are made one after another, by whomever, and between them everything else may happen on the
sending side: the link and the table of replies are closed, replies come in, calls end, the pump takes
steps. Each request that is sent queues one text, and nothing else queues any; read by the host, the
texts are the requests. A request that cannot be sent leaves nothing but the number of its id.

* `Deed`, `Outbox.deed`, `Outbox.run` — what can happen, one happening, and a run.
* `Entry`, `Outbox.log` — a request and where it was made, and the requests of a run.
* `Tidy`, `tidy_deed` — the calls that wait do so under ids that have been taken.
* `Entry.Done`, **`done_of_tidy`** — what one request does.
* **`dispatched_run`** — what all requests of a run do, and what the host reads.
-/

namespace SessionMux

open Octets

/-- What happens on the sending side of a hub. -/
inductive Deed where
  /-- A request is made. -/
  | ask (now : Nat) (a : Ask)
  | closeLink
  | closeReplies
  /-- A message is offered to the calls that wait. -/
  | hear (m : InboundMessage)
  /-- A call leaves its slot. -/
  | leave (c : Call)
  /-- The pump takes a step. -/
  | pump (t : Turn) (inbound outbound : Pipe)
  /-- Whoever waits for an event looks for one. -/
  | resume
  /-- The last handle is gone. -/
  | release

/-- The pump takes a step. -/
def Deed.isPump : Deed → Bool
  | pump .. => true
  | _ => false

/-- A request, the moment when it was made, and how it found the sending side. -/
structure Entry (τ : Type) where
  before : Outbox τ
  now : Nat
  ask : Ask

namespace Outbox

variable {τ : Type}

/-- Something happens. -/
def deed (b : Outbox τ) : Deed → Outbox τ
  | .ask now a => (b.ask now a).2
  | .closeLink => b.closeLink
  | .closeReplies => b.closeReplies
  | .hear m => { b with replies := b.replies.hear m }
  | .leave c => b.abandon c
  | .pump t inbound outbound =>
    match b.link.pump t inbound outbound with
    | some (l, _, _) => { b with link := l }
    | none => b
  | .resume => { b with link := b.link.resume.2 }
  | .release => { b with link := b.link.release }

/-- One thing happens after another. -/
def run (b : Outbox τ) (deeds : List Deed) : Outbox τ := deeds.foldl deed b

/-- The request that is made, if one is. -/
def entry? (b : Outbox τ) : Deed → Option (Entry τ)
  | .ask now a => some ⟨b, now, a⟩
  | _ => none

/-- The requests of a run, in order. -/
def log (b : Outbox τ) : List Deed → List (Entry τ)
  | [] => []
  | d :: deeds => (b.entry? d).toList ++ (b.deed d).log deeds

end Outbox

namespace Entry

variable {τ : Type} (e : Entry τ)

/-- How the request leaves the sending side. -/
def after : Outbox τ := (e.before.ask e.now e.ask).2

/-- What whoever asks has at once. -/
def answer : Except MuxFault Asked := (e.before.ask e.now e.ask).1

/-- The request could be sent. -/
def isSent : Bool := e.answer.isOk

/-- The id that the request has taken. -/
def id : RequestId := e.before.nextId

/-- The message of the request. -/
def message : OutboundMessage := e.ask.message e.id

/-- The envelope of the request. -/
def envelope : Envelope := e.before.envelope e.message

/-- The texts that the request has queued. -/
def texts : List String := e.after.link.queued.drop e.before.link.queued.length

end Entry

/-! ## The calls that wait -/

namespace Replies

variable {t : Replies} {id : RequestId} {s : Slot}

/-- A message makes nobody wait. -/
theorem Sound.awaited?_of_hear (h : t.Sound) {m : InboundMessage}
    (he : (t.hear m).awaited? id = some s) : t.awaited? id = some s := by
  have hslot := (h.hear m).slot?_of_awaited? he
  rw [Replies.hear] at hslot
  split at hslot
  · rw [h.slot?_resolve, Option.map_eq_some_iff] at hslot
    obtain ⟨st, hst, hsettle⟩ := hslot
    rw [((settle_eq_empty_iff (by simp)).mp hsettle).1] at hst
    exact (h.entry_iff id s).mpr hst
  · exact (h.entry_iff id s).mpr hslot

/-- Nor does a slot that is left. -/
theorem awaited?_of_leave {s' : Slot} (he : (t.leave s').2.awaited? id = some s) :
    t.awaited? id = some s := by
  cases hs : t.slot? s' with
  | none =>
    rwa [leave_of_none hs] at he
  | some st =>
    rw [awaited?_leave hs] at he
    split at he
    · cases he
    · exact he

end Replies

namespace Outbox

variable {τ : Type} {b : Outbox τ}

/-- The calls that wait do so under ids that have been taken. -/
structure Tidy (b : Outbox τ) : Prop where
  sound : b.replies.Sound
  taken : ∀ id s, b.replies.awaited? id = some s → id.value.toNat ≤ b.issued

/-- The next id is new to the calls that wait. -/
theorem Tidy.fresh (h : b.Tidy) (hroom : b.issued + 1 < 2 ^ 64) :
    b.replies.awaited? b.nextId = none := by
  cases he : b.replies.awaited? b.nextId with
  | none => rfl
  | some s =>
    have hle := h.taken _ _ he
    rw [b.toNat_nextId hroom] at hle
    omega

/-- What registers nobody. -/
theorem Tidy.of_awaited? {b' : Outbox τ} (h : b.Tidy) (hsound : b'.replies.Sound)
    (hissued : b.issued ≤ b'.issued)
    (hfewer : ∀ id s, b'.replies.awaited? id = some s → b.replies.awaited? id = some s) :
    b'.Tidy :=
  ⟨hsound, fun id s he => Nat.le_trans (h.taken id s (hfewer id s he)) hissued⟩

/-- The next id registers. -/
theorem Tidy.registered (h : b.Tidy) (free : b.replies.closed = false) :
    Tidy { b.issue.2 with replies := b.replies.registered b.nextId } := by
  refine ⟨h.sound.registered b.nextId free, fun id s he => ?_⟩
  have hawaited : (b.replies.registered b.nextId).awaited? id = some s := he
  rw [Replies.awaited?_registered] at hawaited
  split at hawaited
  · rename_i hid
    rw [hid]
    exact b.toNat_nextId_le
  · exact Nat.le_succ_of_le (h.taken id s hawaited)

theorem Tidy.asks (h : b.Tidy) {a : Ask} {r : Except MuxFault Asked} {b' : Outbox τ}
    (hasks : b.Asks a r b') : b'.Tidy := by
  have hissue : b.issue.2.Tidy := h.of_awaited? h.sound (Nat.le_succ _) fun _ _ => id
  cases hasks with
  | told kind opened => exact ⟨hissue.sound, hissue.taken⟩
  | unsent kind shut => exact hissue
  | waiting kind slot free opened => exact ⟨(h.registered free).sound, (h.registered free).taken⟩
  | closed kind closed => exact hissue
  | givenUp kind free shut =>
    exact (h.registered free).of_awaited? ((h.registered free).sound.leave _) (Nat.le_refl _)
      fun _ _ => Replies.awaited?_of_leave

/-- **Whatever happens keeps it so.** -/
theorem tidy_deed (h : b.Tidy) (d : Deed) : (b.deed d).Tidy := by
  cases d with
  | ask now a => exact h.asks (asks_ask b now a)
  | closeLink => exact ⟨h.sound, h.taken⟩
  | closeReplies =>
    exact h.of_awaited? h.sound.closeAll (Nat.le_refl _) fun _ _ he => by cases he
  | hear m => exact h.of_awaited? (h.sound.hear m) (Nat.le_refl _) fun _ _ => h.sound.awaited?_of_hear
  | leave c =>
    exact h.of_awaited? (h.sound.leave _) (Nat.le_refl _) fun _ _ => Replies.awaited?_of_leave
  | pump t inbound outbound =>
    rw [deed]
    split <;> exact ⟨h.sound, h.taken⟩
  | resume => exact ⟨h.sound, h.taken⟩
  | release => exact ⟨h.sound, h.taken⟩

end Outbox

/-! ## What one request does -/

namespace Entry

variable {τ : Type} {e : Entry τ}

/-- **What one request does.** -/
structure Done (e : Entry τ) : Prop where
  /-- Of the link it changes nothing but that it may queue texts behind all other commands. -/
  link_eq : e.after.link =
    { e.before.link with commands := e.before.link.commands ++ e.texts.map .send }
  /-- It is sent if it can be, and else it fails. -/
  sent_iff : e.isSent = true ↔ e.before.Ready e.ask
  /-- When it is sent it queues one text: the line of its envelope. -/
  texts_of_sent : e.isSent = true → e.texts = [e.envelope.toLine.push '\n']
  /-- When it is sent, and no reply is expected, then its id is told. -/
  told : e.isSent = true → e.ask.kind? = none → e.answer = .ok (.told e.id)
  /-- When it is sent, and a reply is expected, then a call waits under its id. -/
  waits : e.isSent = true → e.ask.kind? ≠ none →
    ∃ c, e.answer = .ok (.waiting c) ∧ e.after.replies.awaited? e.id = some c.wait.slot
  /-- When it fails it queues nothing. -/
  texts_of_failed : e.isSent = false → e.texts = []
  /-- When it fails, the same calls wait as before, each for the same. -/
  replies_of_failed : e.isSent = false → e.after.replies.entries = e.before.replies.entries ∧
    ∀ s, e.after.replies.slot? s = e.before.replies.slot? s
  /-- It fails because its line is too long, or because the connection is closed. -/
  fault : ∀ f, e.answer = .error f → f = .connectionClosed ∨
    f = .ofWire (.messageTooLarge e.envelope.line.length defaultLineLimit)

theorem texts_of_queued {texts : List String}
    (h : e.after.link.queued = e.before.link.queued ++ texts) : e.texts = texts := by
  rw [Entry.texts, h, List.drop_left]

/-- A request that is sent. -/
theorem done_of_sent {x : Asked} (hready : e.before.Ready e.ask) (hanswer : e.answer = .ok x)
    (hlink : e.after.link = (e.before.queue e.message).link)
    (htold : e.ask.kind? = none → x = .told e.id)
    (hwaits : e.ask.kind? ≠ none →
      ∃ c, x = .waiting c ∧ e.after.replies.awaited? e.id = some c.wait.slot) : e.Done := by
  have hsent : e.isSent = true := by rw [isSent, hanswer]; rfl
  have htexts : e.texts = [e.envelope.toLine.push '\n'] := by
    refine texts_of_queued ?_
    rw [hlink]
    exact e.before.link.queued_append [e.before.text e.message]
  have hnot : ∀ {P : Prop}, e.isSent = false → P := fun h =>
    absurd (h.symm.trans hsent) Bool.false_ne_true
  refine ⟨?_, iff_of_true hsent hready, fun _ => htexts, fun _ hk => ?_, fun _ hk => ?_, hnot, hnot,
    fun f hf => ?_⟩
  · rw [htexts, hlink]
    rfl
  · rw [hanswer, htold hk]
  · obtain ⟨c, hc, hslot⟩ := hwaits hk
    exact ⟨c, by rw [hanswer, hc], hslot⟩
  · rw [hanswer] at hf
    cases hf

/-- A request that fails. -/
theorem done_of_failed {f : MuxFault} (hready : ¬ e.before.Ready e.ask) (hanswer : e.answer = .error f)
    (hlink : e.after.link = e.before.link)
    (hentries : e.after.replies.entries = e.before.replies.entries)
    (hslots : ∀ s, e.after.replies.slot? s = e.before.replies.slot? s)
    (hfault : f = .connectionClosed ∨ f = e.before.refusal e.message) : e.Done := by
  have hsent : e.isSent = false := by rw [isSent, hanswer]; rfl
  have htexts : e.texts = [] := by
    refine texts_of_queued ?_
    rw [hlink, List.append_nil]
  have hnot : ∀ {P : Prop}, e.isSent = true → P := fun h =>
    absurd (hsent.symm.trans h) Bool.false_ne_true
  refine ⟨?_, iff_of_false (by rw [hsent]; exact Bool.false_ne_true) hready, hnot, hnot, hnot,
    fun _ => htexts, fun _ => ⟨hentries, hslots⟩, fun f' hf => ?_⟩
  · rw [htexts, hlink, List.map_nil, List.append_nil]
  · rw [hanswer] at hf
    cases hf
    rcases hfault with hclosed | hrefusal
    · exact .inl hclosed
    · rw [Outbox.refusal] at hrefusal
      split at hrefusal
      · exact .inr hrefusal
      · exact .inl hrefusal

/-- **What one request does**, whichever it is, as long as there are ids. -/
theorem done_of_tidy (h : e.before.Tidy) (hroom : e.before.issued + 1 < 2 ^ 64) : e.Done := by
  have hasks := Outbox.asks_ask e.before e.now e.ask
  generalize hanswer : (e.before.ask e.now e.ask).1 = r,
    hafter : (e.before.ask e.now e.ask).2 = b' at hasks
  change e.answer = r at hanswer
  change e.after = b' at hafter
  cases hasks with
  | told kind opened =>
    refine done_of_sent ⟨opened, fun hk => absurd kind hk⟩ hanswer (by rw [hafter]; rfl)
      (fun _ => rfl) (fun hk => absurd kind hk)
  | unsent kind shut =>
    exact done_of_failed (fun hready => shut hready.opened) hanswer (by rw [hafter]; rfl)
      (by rw [hafter]; rfl) (fun s => by rw [hafter]; rfl) (.inr rfl)
  | @waiting k c kind slot free opened =>
    have hawaited : e.after.replies.awaited? e.id = some c.wait.slot := by
      rw [hafter, slot]
      exact (Replies.awaited?_registered _ _ _).trans (if_pos rfl)
    exact done_of_sent ⟨opened, fun _ => free⟩ hanswer (by rw [hafter]; rfl)
      (fun hk => by rw [kind] at hk; cases hk) (fun _ => ⟨c, rfl, hawaited⟩)
  | closed kind closed =>
    refine done_of_failed (fun hready => ?_) hanswer (by rw [hafter]; rfl) (by rw [hafter]; rfl)
      (fun s => by rw [hafter]; rfl) (.inl rfl)
    have hopen := hready.registers (by rw [kind]; simp)
    exact Bool.false_ne_true (hopen.symm.trans closed)
  | givenUp kind free shut =>
    obtain ⟨hentries, hslots⟩ := h.sound.leave_registered free (h.fresh hroom)
    exact done_of_failed (fun hready => shut hready.opened) hanswer (by rw [hafter]; rfl)
      (by rw [hafter]; exact hentries) (fun s => by rw [hafter]; exact hslots s) (.inr rfl)

end Entry

/-! ## What the requests of a run do -/

namespace Outbox

variable {τ : Type}

/-- How many requests have been made is known of every one of them. -/
theorem issued_deed (b : Outbox τ) (d : Deed) :
    (b.deed d).issued = b.issued + (b.entry? d).toList.length := by
  cases d with
  | ask now a => exact (asks_ask b now a).issued_eq
  | pump t inbound outbound =>
    rw [deed]
    split <;> rfl
  | _ => rfl

theorem options_deed (b : Outbox τ) (d : Deed) : (b.deed d).options = b.options := by
  cases d with
  | ask now a => exact (asks_ask b now a).options_eq
  | pump t inbound outbound =>
    rw [deed]
    split <;> rfl
  | _ => rfl

/-- The requests of a run are made one after another. -/
theorem issued_log (b : Outbox τ) (deeds : List Deed) :
    (b.log deeds).map (·.before.issued) = List.range' b.issued (b.log deeds).length := by
  induction deeds generalizing b with
  | nil => rfl
  | cons d deeds ih =>
    have hfirst : (b.entry? d).toList.map (·.before.issued) =
        List.range' b.issued (b.entry? d).toList.length := by
      cases d <;> rfl
    rw [log, List.map_append, hfirst, ih, issued_deed, List.range'_append_1, List.length_append]

theorem issued_of_mem_log {b : Outbox τ} {deeds : List Deed} {e : Entry τ} (he : e ∈ b.log deeds) :
    b.issued ≤ e.before.issued ∧ e.before.issued + 1 ≤ b.issued + (b.log deeds).length := by
  have hmem := List.mem_map_of_mem (f := (·.before.issued)) he
  rw [issued_log, List.mem_range'_1] at hmem
  exact hmem

/-- Every request of a run finds the sending side tidy, and speaking as at the start. -/
theorem tidy_log {b : Outbox τ} (h : b.Tidy) (deeds : List Deed) :
    ∀ e ∈ b.log deeds, e.before.Tidy ∧ e.before.options = b.options := by
  induction deeds generalizing b with
  | nil => exact fun e he => absurd he List.not_mem_nil
  | cons d deeds ih =>
    intro e he
    rcases List.mem_append.mp he with hfirst | hlater
    · cases d with
      | ask now a =>
        cases List.mem_singleton.mp hfirst
        exact ⟨h, rfl⟩
      | _ => cases hfirst
    · obtain ⟨htidy, hoptions⟩ := ih (tidy_deed h d) e hlater
      exact ⟨htidy, hoptions.trans (options_deed b d)⟩

/-- **Ids increase strictly**, as long as there are any. -/
theorem increasing_log {b : Outbox τ} {deeds : List Deed}
    (hroom : b.issued + (b.log deeds).length < 2 ^ 64) :
    ((b.log deeds).map (·.id.value)).Pairwise (· < ·) := by
  have hissued : ((b.log deeds).map (·.before.issued)).Pairwise (· < ·) := by
    rw [issued_log]
    exact List.pairwise_lt_range'
  have hbound : ∀ e ∈ b.log deeds, e.before.issued + 1 < 2 ^ 64 :=
    fun e he => Nat.lt_of_le_of_lt (issued_of_mem_log he).2 hroom
  rw [List.pairwise_map] at hissued ⊢
  refine hissued.imp_of_mem fun {e e'} he he' hlt => ?_
  rw [UInt64.lt_iff_toNat_lt]
  show e.before.nextId.value.toNat < e'.before.nextId.value.toNat
  rw [toNat_nextId _ (hbound e he), toNat_nextId _ (hbound e' he')]
  omega

/-! ### What is queued -/

/-- Only requests queue texts, and only the pump takes any. -/
theorem queued_deed {b : Outbox τ} {d : Deed} (hdone : ∀ e ∈ (b.entry? d).toList, e.Done) :
    (b.deed d).link.queued <:+ b.link.queued ++ (b.entry? d).toList.flatMap Entry.texts ∧
      (d.isPump = false → (b.deed d).link.queued =
        b.link.queued ++ (b.entry? d).toList.flatMap Entry.texts) := by
  have hequal : ∀ {l l' : List String}, l = l' → l <:+ l' ∧ (d.isPump = false → l = l') :=
    fun h => ⟨h ▸ List.suffix_rfl, fun _ => h⟩
  have hsame : ∀ {l : List String}, l = b.link.queued → l = b.link.queued ++ [] :=
    fun h => h.trans (List.append_nil _).symm
  cases d with
  | ask now a =>
    have hlink := (hdone ⟨b, now, a⟩ (List.mem_singleton.mpr rfl)).link_eq
    refine hequal ?_
    show Link.queued (b.ask now a).2.link = _
    rw [show (b.ask now a).2.link = _ from hlink, Link.queued_append]
    exact congrArg _ (List.append_nil _).symm
  | closeLink => exact hequal (hsame b.link.queued_close)
  | pump t inbound outbound =>
    refine ⟨?_, fun h => by cases h⟩
    show (b.deed (.pump t inbound outbound)).link.queued <:+ b.link.queued ++ []
    rw [List.append_nil, deed]
    split
    · rename_i l i' o' hpump
      exact (Link.pumps_of_pump hpump).2.queued
    · exact List.suffix_rfl
  | resume =>
    refine hequal (hsame ?_)
    show Link.queued b.link.resume.2 = _
    rw [Link.queued, b.link.commands_resume.1, Link.queued]
  | _ => exact hequal (hsame rfl)

/-- What a run leaves queued is the end of what its requests have queued, and all of it if the pump has
taken nothing. -/
theorem queued_run {b : Outbox τ} {deeds : List Deed} (hdone : ∀ e ∈ b.log deeds, e.Done) :
    (b.run deeds).link.queued <:+ b.link.queued ++ (b.log deeds).flatMap Entry.texts ∧
      ((∀ d ∈ deeds, d.isPump = false) → (b.run deeds).link.queued =
        b.link.queued ++ (b.log deeds).flatMap Entry.texts) := by
  induction deeds generalizing b with
  | nil =>
    have hnil : b.link.queued = b.link.queued ++ [] := (List.append_nil _).symm
    exact ⟨hnil ▸ List.suffix_rfl, fun _ => hnil⟩
  | cons d deeds ih =>
    obtain ⟨hsuffix, hall⟩ := queued_deed fun e he => hdone e (List.mem_append_left _ he)
    obtain ⟨hsuffix', hall'⟩ := ih fun e he => hdone e (List.mem_append_right _ he)
    rw [log, List.flatMap_append, ← List.append_assoc]
    refine ⟨hsuffix'.trans (List.suffix_append_self_iff.mpr hsuffix), fun hpump => ?_⟩
    rw [← hall (hpump d List.mem_cons_self)]
    exact hall' fun d' hd' => hpump d' (List.mem_cons_of_mem _ hd')

/-- Requests queue one text for each of them that is sent. -/
theorem texts_sent {log : List (Entry τ)} (hdone : ∀ e ∈ log, e.Done) :
    log.flatMap Entry.texts =
      ((log.filter Entry.isSent).map Entry.envelope).map fun v => v.toLine.push '\n' := by
  induction log with
  | nil => rfl
  | cons e log ih =>
    have he := hdone e List.mem_cons_self
    rw [List.flatMap_cons, ih fun e' he' => hdone e' (List.mem_cons_of_mem _ he')]
    cases hsent : e.isSent with
    | true => rw [he.texts_of_sent hsent, List.filter_cons_of_pos hsent]; rfl
    | false =>
      rw [he.texts_of_failed hsent, List.filter_cons_of_neg (by rw [hsent]; exact Bool.false_ne_true)]
      rfl

/-- **What all requests of a run do**, and what the host reads. -/
structure Dispatched (b : Outbox τ) (deeds : List Deed) : Prop where
  /-- Each of them is sent, or fails and leaves nothing. -/
  each : ∀ e ∈ b.log deeds, e.Done
  increasing : ((b.log deeds).map (·.id.value)).Pairwise (· < ·)
  /-- Only requests queue texts. -/
  queued : (b.run deeds).link.queued <:+ (b.log deeds).flatMap Entry.texts
  all_queued : (∀ d ∈ deeds, d.isPump = false) →
    (b.run deeds).link.queued = (b.log deeds).flatMap Entry.texts
  /-- The line feed at the end of a text is the only one in it. -/
  ends : ∀ text ∈ (b.log deeds).flatMap Entry.texts,
    ∃ line, toList text.toUTF8 = line ++ [lineFeed] ∧ lineFeed ∉ line
  /-- Cut into whatever pieces and read by the host, the texts are the requests that were sent. -/
  read : ∀ (policy : MalformedLines) (chunks : List ByteArray),
    chunks.flatMap toList =
        ((b.log deeds).flatMap Entry.texts).flatMap (fun text => toList text.toUTF8) →
      let read := (Intake.fresh defaultLineLimit policy).feedAll chunks
      read.1.map (·.unpack OutboundMessage) =
          ((b.log deeds).filter Entry.isSent).map (fun e => .ok e.message) ∧
        read.2.buffer.toList = [] ∧ read.2.stalled = false

/-- **Requests go out one by one.** Whatever the options of a hub, and whatever happens on its sending
side: every request that can be sent queues one text and takes an id above all earlier ones, every
other one leaves nothing, and the host reads what was sent. -/
theorem dispatched_run (options : HubOptions) (hgzip : ∀ x, Gzip.decode (options.gzip x) = .ok x)
    (own : τ) (deeds : List Deed)
    (hfew : (({ options := options, own := own } : Outbox τ).log deeds).length < 2 ^ 64) :
    Dispatched { options := options, own := own } deeds := by
  let b : Outbox τ := { options := options, own := own }
  have hstart : b.Tidy := ⟨Replies.sound_empty, fun _ _ he => by cases he⟩
  have hroom : b.issued + (b.log deeds).length < 2 ^ 64 := by
    rw [show b.issued = 0 from rfl, Nat.zero_add]
    exact hfew
  have hdone : ∀ e ∈ b.log deeds, e.Done := fun e he =>
    Entry.done_of_tidy (tidy_log hstart deeds e he).1
      (Nat.lt_of_le_of_lt (issued_of_mem_log he).2 hroom)
  obtain ⟨hqueued, hall⟩ := queued_run hdone
  -- the host reads the envelopes of what was sent, and nothing else
  let sent := (b.log deeds).filter Entry.isSent
  have htexts : (b.log deeds).flatMap Entry.texts =
      (sent.map Entry.envelope).map fun v => v.toLine.push '\n' := texts_sent hdone
  have hfits : ∀ e ∈ sent, e.envelope.line.length ≤ defaultLineLimit := fun e he =>
    have hmem := List.mem_filter.mp he
    ((hdone e hmem.1).sent_iff.mp hmem.2).opened.fits
  refine ⟨hdone, increasing_log hroom, hqueued, hall, fun text htext => ?_,
    fun policy chunks hchunks => ?_⟩
  · rw [htexts] at htext
    obtain ⟨v, -, rfl⟩ := List.mem_map.mp htext
    exact ⟨v.line, toList_push_lineFeed v.toLine, v.lineFeed_notMem_line⟩
  · change chunks.flatMap toList = ((b.log deeds).flatMap Entry.texts).flatMap _ at hchunks
    rw [htexts, flatMap_written] at hchunks
    have hlines : ∀ v ∈ sent.map Entry.envelope, v.line.length ≤ defaultLineLimit := by
      intro v hv
      obtain ⟨e, he, rfl⟩ := List.mem_map.mp hv
      exact hfits e he
    obtain ⟨hread, hrest⟩ := Intake.feedAll_joined policy
      (Envelope.fits_of_lines (by decide) hlines) hlines hchunks
    refine ⟨?_, hrest⟩
    rw [hread, List.map_map]
    refine List.map_congr_left fun e he => ?_
    obtain ⟨-, hoptions⟩ := tidy_log hstart deeds e (List.mem_filter.mp he).1
    exact unpack_envelope (by rw [hoptions]; exact hgzip) (hfits e he)

/-- A call to a hub that compresses, and one that comes too late. -/
theorem dispatched_late :
    let options : HubOptions := { compression := .gzip }
    let deeds : List Deed :=
      [.ask 0 .ping, .closeLink, .ask 1 (.runProcess "main" ⟨"ls", [], none, []⟩)]
    Dispatched { options := options, own := () } deeds ∧
      (({ options := options, own := () } : Outbox Unit).log deeds).map Entry.isSent =
        [true, false] := by
  intro options deeds
  exact ⟨dispatched_run options Gzip.decode_encode () deeds (by decide), by decide +kernel⟩

end Outbox

end SessionMux
