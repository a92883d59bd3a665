import SessionMux.Proofs.Toml.Names
import SessionMux.Settings.Source

/-!
# What settings are read from a file

A field of the settings has what the document gives for it, and its default if the document gives
nothing. What is given is a matter of what stands in the document, by name or by place, and not of
where it stands or of what else is there.

* `Field` — the fields, with what they hold; `Field.Given`, `Field.Means`, `Field.Takes` say what a
  document gives for a field, what it means, and what the field has in the end.
* `Conforms`, `Describes` — a document with values of the right kinds, and the settings of it.
* `ofTable?_eq_some_iff` — a document is read field by field.
* `ofTable?_iff`, `exists_of_conforms` — it is read exactly if it conforms, and then the settings are
  those that it describes.
* **`loads`** — what is read from a file, and what is taken when reading fails.
-/

namespace SessionMux

open Toml

namespace Settings

variable {α : Type}

/-! ## The fields -/

/-- A field of the settings, with the type of what it holds. -/
inductive Field : Type → Type
  | url : Field String
  | attempts : Field UInt32
  | retryDelay : Field Nat
  | gzip : Field Bool
  | malformedLines : Field MalformedLines
  | requestTimeout : Field Nat
  | interval : Field Nat
  | checkTimeout : Field Nat
  | report : Field ReportPolicy

/-- One of several names stands in a value: as a text, or as the only name in a table, with nothing
under it. -/
def IsNamed (names : List (String × α)) (a : α) (v : Value) : Prop :=
  ∃ s, (s, a) ∈ names ∧ (v = .string s ∨ v = .table [(s, .table [])] ∨ v = .table [(s, .array [])])

namespace Field

/-- The section in which a field is given. -/
def heading : Field α → String
  | .url | .attempts | .retryDelay => "connection"
  | .gzip | .malformedLines => "packets"
  | .requestTimeout => "requests"
  | .interval | .checkTimeout | .report => "liveness"

/-- The place of a field in a section that is an array. -/
def position : Field α → Nat
  | .url | .gzip | .requestTimeout | .interval => 0
  | .attempts | .malformedLines | .checkTimeout => 1
  | .retryDelay | .report => 2

/-- The name of a field in a section that is a table. -/
def name : Field α → String
  | .url => "url"
  | .attempts => "attempts"
  | .retryDelay => "retry_delay_ms"
  | .gzip => "gzip"
  | .malformedLines => "malformed_lines"
  | .requestTimeout => "timeout_ms"
  | .interval => "interval_ms"
  | .checkTimeout => "timeout_ms"
  | .report => "report"

/-- What a field holds that is not given. -/
def otherwise : Field α → α
  | .url => "ws://127.0.0.1:9090"
  | .attempts => 3
  | .retryDelay => 200
  | .gzip => false
  | .malformedLines => .skip
  | .requestTimeout => 10000
  | .interval => 1000
  | .checkTimeout => 10000
  | .report => .onTransition

/-- What a field holds in settings. -/
def get : Field α → Settings → α
  | .url, s => s.connection.url
  | .attempts, s => s.connection.attempts
  | .retryDelay, s => s.connection.retryDelay
  | .gzip, s => s.packets.gzip
  | .malformedLines, s => s.packets.malformedLines
  | .requestTimeout, s => s.requests.timeout
  | .interval, s => s.liveness.interval
  | .checkTimeout, s => s.liveness.timeout
  | .report, s => s.liveness.report

/-- The defaults of the fields are those of settings as a whole. -/
theorem get_default (f : Field α) : f.get {} = f.otherwise := by
  cases f <;> rfl

/-- What a value means for a field. Times are numbers of 64 bits. -/
def Means : {α : Type} → Field α → α → Value → Prop
  | _, .url, s, v => v = .string s
  | _, .attempts, n, v => v = .integer n.toNat
  | _, .gzip, b, v => v = .boolean b
  | _, .malformedLines, p, v => IsNamed [("skip", .skip), ("stall", .stall)] p v
  | _, .report, p, v =>
    IsNamed [("on_transition", .onTransition), ("every_failure", .everyFailure)] p v
  | _, .retryDelay, n, v | _, .requestTimeout, n, v | _, .interval, n, v | _, .checkTimeout, n, v =>
    v = .integer n ∧ n < UInt64.size

end Field

/-! ## What a document gives -/

/-- What a section gives under a name, if it is a table, or at a place, if it is an array. -/
inductive Holds (position : Nat) (name : String) (v : Value) : Value → Prop
  | table {entries : List (String × Value)} (h : (name, v) ∈ entries) :
      Holds position name v (.table entries)
  | array {items : List Value} (h : items[position]? = some v) : Holds position name v (.array items)

/-- A document gives a value for a field. -/
def Field.Given (f : Field α) (t : Table) (v : Value) : Prop :=
  ∃ part, (f.heading, part) ∈ t ∧ Holds f.position f.name v part

/-- **What a field has in the end**: what is given for it, or its default if nothing is given. -/
def Field.Takes (f : Field α) (t : Table) (a : α) : Prop :=
  (∃ v, f.Given t v ∧ f.Means a v) ∨ (∀ v, ¬ f.Given t v) ∧ a = f.otherwise

/-- The settings have in each field what the document says. -/
def Describes (t : Table) (s : Settings) : Prop := ∀ α (f : Field α), f.Takes t (f.get s)

/-- A section is a table or an array. A moment passes for a table without any of the names. -/
def IsSection : Value → Prop
  | .table _ | .array _ | .moment => True
  | _ => False

/-- **A document with values of the right kinds**, as far as they are asked for. -/
structure Conforms (t : Table) : Prop where
  sections : ∀ α (f : Field α) part, (f.heading, part) ∈ t → IsSection part
  values : ∀ α (f : Field α) v, f.Given t v → ∃ a, f.Means a v

/-- A file that can be read, is a text, and is a document with this table. -/
def IsDocument (file : Except SystemError ByteArray) (t : Table) : Prop :=
  ∃ bytes document, file = .ok bytes ∧ Utf8.decode bytes = .ok document ∧
    Table.ofText? document = some t

/-- Settings that can be used: there is somewhere to connect, at least one attempt is made, and no
time is up at once. -/
structure Usable (s : Settings) : Prop where
  url : s.connection.url ≠ ""
  attempts : 1 ≤ s.connection.attempts
  requestTimeout : 0 < s.hub.requestTimeout
  interval : 0 < s.liveness.interval
  checkTimeout : 0 < s.liveness.timeout

/-- What is given for a field is one value at most. -/
theorem Field.Given.unique {f : Field α} {t : Table} {v w : Value} (ht : (Value.table t).Distinct)
    (hv : f.Given t v) (hw : f.Given t w) : v = w := by
  obtain ⟨part, hpart, hv⟩ := hv
  obtain ⟨part', hpart', hw⟩ := hw
  obtain rfl := eq_of_mem ht.names hpart hpart'
  have hdistinct := ht.value _ hpart
  cases hv with
  | table hv =>
    cases hw with
    | table hw => exact eq_of_mem hdistinct.names hv hw
  | array hv =>
    cases hw with
    | array hw => exact Option.some.inj (hv.symm.trans hw)

/-! ## How a field is read -/

theorem string?_eq_some_iff {v : Value} {s : String} : v.string? = some s ↔ v = .string s := by
  cases v <;> simp [Value.string?]

theorem boolean?_eq_some_iff {v : Value} {b : Bool} : v.boolean? = some b ↔ v = .boolean b := by
  cases v <;> simp [Value.boolean?]

theorem natural?_eq_some_iff {bound : Nat} {v : Value} {n : Nat} :
    v.natural? bound = some n ↔ v = .integer n ∧ n < bound := by
  cases v with
  | integer i =>
    simp only [Value.natural?, Bool.and_eq_true, decide_eq_true_eq, Value.integer.injEq]
    split
    · rw [Option.some.injEq]
      omega
    · constructor
      · nofun
      · omega
  | _ => simp [Value.natural?]

theorem isVoid_iff {v : Value} : v.isVoid = true ↔ v = .table [] ∨ v = .array [] := by
  unfold Value.isVoid
  split <;> simp_all

theorem choice?_eq_some_iff {names : List (String × α)} {v : Value} {a : α}
    (hnames : (names.map Prod.fst).Nodup) : v.choice? names = some a ↔ IsNamed names a v := by
  have hlookup (s : String) : names.lookup s = some a ↔ (s, a) ∈ names :=
    ⟨mem_of_lookup, lookup_of_mem hnames⟩
  unfold Value.choice?
  split
  · rename_i s
    rw [hlookup]
    constructor
    · exact fun h => ⟨s, h, .inl rfl⟩
    · rintro ⟨s', h, h' | h' | h'⟩ <;> cases h'
      exact h
  · rename_i s w
    constructor
    · intro h
      split at h
      · rename_i hvoid
        refine ⟨s, (hlookup s).mp h, .inr ?_⟩
        rcases isVoid_iff.mp hvoid with rfl | rfl
        · exact .inl rfl
        · exact .inr rfl
      · cases h
    · rintro ⟨s', h, h' | h' | h'⟩ <;> cases h'
      · exact (if_pos rfl).trans ((hlookup s).mpr h)
      · exact (if_pos rfl).trans ((hlookup s).mpr h)
  · rename_i hstring htable
    constructor
    · nofun
    · rintro ⟨s', -, h | h | h⟩
      · exact absurd h (hstring s')
      · exact absurd h (htable s' _)
      · exact absurd h (htable s' _)

namespace Field

/-- How a value is read for a field. -/
def read : {α : Type} → Field α → Value → Option α
  | _, .url => Value.string?
  | _, .attempts => fun v => (v.natural? (Nat.pow 2 32)).map Nat.toUInt32
  | _, .gzip => Value.boolean?
  | _, .malformedLines => Value.choice? [("skip", .skip), ("stall", .stall)]
  | _, .report => Value.choice? [("on_transition", .onTransition), ("every_failure", .everyFailure)]
  | _, .retryDelay | _, .requestTimeout | _, .interval | _, .checkTimeout =>
    Value.natural? (Nat.pow 2 64)

/-- A value is read for what it means. -/
theorem read_eq_some_iff (f : Field α) {v : Value} {a : α} : f.read v = some a ↔ f.Means a v := by
  cases f with
  | url => exact string?_eq_some_iff
  | attempts =>
    show (v.natural? (Nat.pow 2 32)).map Nat.toUInt32 = some a ↔ v = .integer a.toNat
    rw [Option.map_eq_some_iff]
    constructor
    · rintro ⟨n, hn, rfl⟩
      obtain ⟨rfl, hlt⟩ := natural?_eq_some_iff.mp hn
      rw [UInt32.toNat_ofNat_of_lt' hlt]
    · rintro rfl
      exact ⟨a.toNat, natural?_eq_some_iff.mpr ⟨rfl, a.toNat_lt⟩, UInt32.ofNat_toNat⟩
  | gzip => exact boolean?_eq_some_iff
  | malformedLines => exact choice?_eq_some_iff (by decide)
  | report => exact choice?_eq_some_iff (by decide)
  | retryDelay | requestTimeout | interval | checkTimeout => exact natural?_eq_some_iff

/-- A value means one thing. -/
theorem Means.unique {f : Field α} {v : Value} {a b : α} (ha : f.Means a v) (hb : f.Means b v) :
    a = b :=
  Option.some.inj ((f.read_eq_some_iff.mpr ha).symm.trans (f.read_eq_some_iff.mpr hb))

/-- **What a field has depends on what is given for it, and on nothing else.** -/
theorem Takes.unique {f : Field α} {t t' : Table} {a b : α} (ht : (Value.table t).Distinct)
    (hsame : ∀ v, f.Given t v ↔ f.Given t' v) (ha : f.Takes t a) (hb : f.Takes t' b) : a = b := by
  rcases ha with ⟨v, hv, hmeans⟩ | ⟨hnone, ha⟩
  · rcases hb with ⟨w, hw, hmeans'⟩ | ⟨hnone', -⟩
    · rw [hv.unique ht ((hsame w).mpr hw)] at hmeans
      exact hmeans.unique hmeans'
    · exact absurd ((hsame v).mp hv) (hnone' v)
  · rcases hb with ⟨w, hw, -⟩ | ⟨-, hb⟩
    · exact absurd ((hsame w).mpr hw) (hnone w)
    · exact ha.trans hb.symm

/-- What is read for a field in a section that gives what is given. -/
def taken (f : Field α) (given : Section) : Option α :=
  given.field f.position f.name f.read f.otherwise

/-- What is read for a field in a section. -/
def of? (f : Field α) (part : Value) : Option α := part.section?.bind f.taken

end Field

/-! ## How the sections are read -/

open SessionMux.Settings.Field

theorem connection_eq_some_iff {v : Value} {c : ConnectionSettings} :
    ConnectionSettings.ofValue? v = some c ↔
      of? .url v = some c.url ∧ of? .attempts v = some c.attempts ∧
        of? .retryDelay v = some c.retryDelay := by
  unfold ConnectionSettings.ofValue? of?
  cases v.section? with
  | none => simp
  | some given =>
    -- the number of attempts is read as a natural number first
    have hattempts : taken .attempts given =
        (given.field 1 "attempts" (Value.natural? (Nat.pow 2 32)) (3 : UInt32).toNat).map
          Nat.toUInt32 := by
      unfold taken Section.field
      dsimp only [Field.position, Field.name]
      cases given 1 "attempts" with
      | none => rfl
      | some v => rfl
    simp only [Option.bind_eq_bind, Option.bind_some, Option.bind_eq_some_iff, hattempts,
      Option.map_eq_some_iff]
    constructor
    · rintro ⟨url, hurl, n, hn, delay, hdelay, hc⟩
      cases hc
      exact ⟨hurl, ⟨n, hn, rfl⟩, hdelay⟩
    · rintro ⟨hurl, ⟨n, hn, hc⟩, hdelay⟩
      exact ⟨_, hurl, n, hn, _, hdelay, by rw [hc]; rfl⟩

theorem packets_eq_some_iff {v : Value} {c : PacketSettings} :
    PacketSettings.ofValue? v = some c ↔
      of? .gzip v = some c.gzip ∧ of? .malformedLines v = some c.malformedLines := by
  unfold PacketSettings.ofValue? of?
  cases v.section? with
  | none => simp
  | some given =>
    simp only [Option.bind_eq_bind, Option.bind_some, Option.bind_eq_some_iff]
    constructor
    · rintro ⟨gzip, hgzip, lines, hlines, hc⟩
      cases hc
      exact ⟨hgzip, hlines⟩
    · exact fun ⟨hgzip, hlines⟩ => ⟨_, hgzip, _, hlines, rfl⟩

theorem requests_eq_some_iff {v : Value} {c : RequestSettings} :
    RequestSettings.ofValue? v = some c ↔ of? .requestTimeout v = some c.timeout := by
  unfold RequestSettings.ofValue? of?
  cases v.section? with
  | none => simp
  | some given =>
    simp only [Option.bind_eq_bind, Option.bind_some, Option.bind_eq_some_iff]
    constructor
    · rintro ⟨timeout, htimeout, hc⟩
      cases hc
      exact htimeout
    · exact fun htimeout => ⟨_, htimeout, rfl⟩

theorem liveness_eq_some_iff {v : Value} {c : HeartbeatOptions} :
    HeartbeatOptions.ofValue? v = some c ↔
      of? .interval v = some c.interval ∧ of? .checkTimeout v = some c.timeout ∧
        of? .report v = some c.report := by
  unfold HeartbeatOptions.ofValue? of?
  cases v.section? with
  | none => simp
  | some given =>
    simp only [Option.bind_eq_bind, Option.bind_some, Option.bind_eq_some_iff]
    constructor
    · rintro ⟨interval, hinterval, timeout, htimeout, report, hreport, hc⟩
      cases hc
      exact ⟨hinterval, htimeout, hreport⟩
    · exact fun ⟨hinterval, htimeout, hreport⟩ => ⟨_, hinterval, _, htimeout, _, hreport, rfl⟩

/-- A section of a document. One that is missing is as good as an empty one. -/
def part (t : Table) (heading : String) : Value := (t.lookup heading).getD (.table [])

theorem field_eq_part (t : Table) (n : Nat) (heading : String) {γ : Type} {read : Value → Option γ}
    {d : γ} (hd : read (.table []) = some d) :
    Section.field (fun _ name => t.lookup name) n heading read d = read (part t heading) := by
  rw [Section.field, part]
  cases t.lookup heading with
  | none => exact hd.symm
  | some v => rfl

/-- **Reading a document** is to read each field in its section, whatever the others are. -/
theorem ofTable?_eq_some_iff {t : Table} {s : Settings} :
    ofTable? t = some s ↔ ∀ α (f : Field α), f.of? (part t f.heading) = some (f.get s) := by
  have hconnection := field_eq_part t 0 "connection"
    (rfl : ConnectionSettings.ofValue? (.table []) = some {})
  have hpackets := field_eq_part t 1 "packets" (rfl : PacketSettings.ofValue? (.table []) = some {})
  have hrequests := field_eq_part t 2 "requests"
    (rfl : RequestSettings.ofValue? (.table []) = some {})
  have hliveness := field_eq_part t 3 "liveness"
    (rfl : HeartbeatOptions.ofValue? (.table []) = some {})
  unfold ofTable?
  simp only [Option.bind_eq_bind, Option.bind_eq_some_iff]
  constructor
  · rintro ⟨c, hc, p, hp, r, hr, l, hl, hs⟩ α f
    cases hs
    obtain ⟨hurl, hattempts, hdelay⟩ := connection_eq_some_iff.mp (hconnection.symm.trans hc)
    obtain ⟨hgzip, hlines⟩ := packets_eq_some_iff.mp (hpackets.symm.trans hp)
    obtain ⟨hinterval, htimeout, hreport⟩ := liveness_eq_some_iff.mp (hliveness.symm.trans hl)
    cases f with
    | url => exact hurl
    | attempts => exact hattempts
    | retryDelay => exact hdelay
    | gzip => exact hgzip
    | malformedLines => exact hlines
    | requestTimeout => exact requests_eq_some_iff.mp (hrequests.symm.trans hr)
    | interval => exact hinterval
    | checkTimeout => exact htimeout
    | report => exact hreport
  · intro h
    have hc := connection_eq_some_iff.mpr ⟨h _ .url, h _ .attempts, h _ .retryDelay⟩
    have hp := packets_eq_some_iff.mpr ⟨h _ .gzip, h _ .malformedLines⟩
    have hr := requests_eq_some_iff.mpr (h _ .requestTimeout)
    have hl := liveness_eq_some_iff.mpr ⟨h _ .interval, h _ .checkTimeout, h _ .report⟩
    exact ⟨_, hconnection.trans hc, _, hpackets.trans hp, _, hrequests.trans hr, _,
      hliveness.trans hl, rfl⟩

/-- A document is read if each of its fields is. -/
theorem exists_of_fields {t : Table} (h : ∀ α (f : Field α), ∃ a, f.of? (part t f.heading) = some a) :
    ∃ s, ofTable? t = some s := by
  let value := fun α (f : Field α) => (h α f).choose
  have hvalue : ∀ α (f : Field α), f.of? (part t f.heading) = some (value α f) :=
    fun α f => (h α f).choose_spec
  refine ⟨⟨⟨value _ .url, value _ .attempts, value _ .retryDelay⟩,
    ⟨value _ .gzip, value _ .malformedLines⟩, ⟨value _ .requestTimeout⟩,
    ⟨value _ .interval, value _ .checkTimeout, value _ .report⟩⟩, ?_⟩
  refine ofTable?_eq_some_iff.mpr fun α f => ?_
  rw [hvalue]
  cases f <;> rfl

/-! ## What is read is what is given -/

theorem isSection_iff {part : Value} : IsSection part ↔ ∃ given, part.section? = some given := by
  cases part <;> simp [IsSection, Value.section?]

/-- A section with distinct names gives what it holds. -/
theorem given_eq_some_iff {part v : Value} {given : Section} {position : Nat} {name : String}
    (hpart : part.Distinct) (h : part.section? = some given) :
    given position name = some v ↔ Holds position name v part := by
  unfold Value.section? at h
  split at h
  · cases h
    constructor
    · exact fun hv => .table (mem_of_lookup hv)
    · intro hv
      cases hv with
      | table hv => exact lookup_of_mem hpart.names hv
  · cases h
    constructor
    · exact fun hv => .array hv
    · intro hv
      cases hv with
      | array hv => exact hv
  · cases h
    exact ⟨nofun, nofun⟩
  · cases h

/-- **What is read for a field in a section**: what is given for it, or its default. -/
theorem of?_eq_some_iff (f : Field α) {part : Value} (hpart : part.Distinct) {a : α} :
    f.of? part = some a ↔ IsSection part ∧
      ((∃ v, Holds f.position f.name v part ∧ f.Means a v) ∨
        (∀ v, ¬ Holds f.position f.name v part) ∧ a = f.otherwise) := by
  rw [of?, isSection_iff]
  cases hgiven : part.section? with
  | none => simp
  | some given =>
    simp only [← given_eq_some_iff hpart hgiven, ← f.read_eq_some_iff]
    rw [Option.bind_some, taken, Section.field]
    cases given f.position f.name with
    | none => simp [eq_comm]
    | some v => simp

section Document

variable {t : Table} (ht : (Value.table t).Distinct)

include ht

theorem distinct_part (heading : String) : (part t heading).Distinct := by
  rw [part]
  cases h : t.lookup heading with
  | none => exact .table List.nodup_nil nofun
  | some v => exact ht.value _ (mem_of_lookup h)

/-- What holds of the section of a heading, if it is there, and of an empty one. -/
theorem forall_part_iff {P : Value → Prop} (hP : P (.table [])) (heading : String) :
    (∀ v, (heading, v) ∈ t → P v) ↔ P (part t heading) := by
  rw [part]
  cases h : t.lookup heading with
  | none =>
    refine ⟨fun _ => hP, fun _ v hv => ?_⟩
    rw [lookup_of_mem ht.names hv] at h
    cases h
  | some w =>
    have hmem := mem_of_lookup h
    exact ⟨fun hall => hall w hmem, fun hw v hv => eq_of_mem ht.names hmem hv ▸ hw⟩

/-- What is given for a field is what its section holds. -/
theorem given_iff {f : Field α} {v : Value} :
    f.Given t v ↔ Holds f.position f.name v (part t f.heading) := by
  constructor
  · rintro ⟨w, hw, hv⟩
    rw [part, lookup_of_mem ht.names hw]
    exact hv
  · intro hv
    rw [part] at hv
    cases h : t.lookup f.heading with
    | none =>
      rw [h] at hv
      cases hv with
      | table hv => cases hv
    | some w =>
      rw [h] at hv
      exact ⟨w, mem_of_lookup h, hv⟩

theorem of?_part_eq_some_iff {f : Field α} {a : α} :
    f.of? (part t f.heading) = some a ↔
      (∀ w, (f.heading, w) ∈ t → IsSection w) ∧ f.Takes t a := by
  rw [of?_eq_some_iff f (distinct_part ht f.heading), forall_part_iff ht trivial, Takes]
  simp only [given_iff ht]

/-- **A document is read exactly if it conforms**, and then as it describes the settings. -/
theorem ofTable?_iff {s : Settings} : ofTable? t = some s ↔ Conforms t ∧ Describes t s := by
  rw [ofTable?_eq_some_iff]
  constructor
  · intro h
    have htakes := fun α (f : Field α) => (of?_part_eq_some_iff ht).mp (h α f)
    refine ⟨⟨fun α f => (htakes α f).1, fun α f v hv => ?_⟩, fun α f => (htakes α f).2⟩
    rcases (htakes α f).2 with ⟨w, hw, hmeans⟩ | ⟨hnone, -⟩
    · exact ⟨_, (hv.unique ht hw) ▸ hmeans⟩
    · exact absurd hv (hnone v)
  · exact fun h α f => (of?_part_eq_some_iff ht).mpr ⟨h.1.sections α f, h.2 α f⟩

theorem exists_of_conforms (h : Conforms t) : ∃ s, ofTable? t = some s := by
  refine exists_of_fields fun α f => ?_
  by_cases hgiven : ∃ v, f.Given t v
  · obtain ⟨v, hv⟩ := hgiven
    obtain ⟨a, ha⟩ := h.values α f v hv
    exact ⟨a, (of?_part_eq_some_iff ht).mpr ⟨h.sections α f, .inl ⟨v, hv, ha⟩⟩⟩
  · exact ⟨f.otherwise, (of?_part_eq_some_iff ht).mpr
      ⟨h.sections α f, .inr ⟨not_exists.mp hgiven, rfl⟩⟩⟩

end Document

/-- One section in four forms: under a header, in braces, as an array, and by a dotted key. -/
example : ["[packets]\ngzip = true", "packets = \x7b gzip = true \x7d", "packets = [true]",
    "packets.gzip = true"].map (fun document => (Table.ofText? document).bind ofTable?) =
    List.replicate 4 (some { packets := { gzip := true } }) := by
  decide +kernel

/-! ## What is read from a file -/

theorem usable_iff {s : Settings} : s.Usable ↔ s.flaw? = none := by
  rw [flaw?_eq_none_iff]
  constructor
  · intro h
    refine ⟨h.url, fun h0 => ?_, Nat.ne_of_gt h.requestTimeout, Nat.ne_of_gt h.interval,
      Nat.ne_of_gt h.checkTimeout⟩
    have hattempts := h.attempts
    rw [h0] at hattempts
    exact absurd hattempts (by decide)
  · rintro ⟨hurl, hattempts, hrequest, hinterval, hcheck⟩
    refine ⟨hurl, ?_, Nat.pos_of_ne_zero hrequest, Nat.pos_of_ne_zero hinterval,
      Nat.pos_of_ne_zero hcheck⟩
    rw [UInt32.le_iff_toNat_le]
    exact Nat.pos_of_ne_zero fun h0 => hattempts (UInt32.toNat_inj.mp h0)

theorem distinct_of_isDocument {file : Except SystemError ByteArray} {t : Table}
    (h : IsDocument file t) : (Value.table t).Distinct := by
  obtain ⟨bytes, document, -, -, ht⟩ := h
  exact distinct_of_ofText? ht

/-- **What is read from a document**, and why nothing is. -/
theorem read_of_isDocument {file : Except SystemError ByteArray} {t : Table} (path : String)
    (h : IsDocument file t) :
    read path file = match ofTable? t with
      | none => .error (.settingsInvalid path notReadable)
      | some s => match s.flaw? with
        | some f => .error (.settingsInvalid path f.text)
        | none => .ok s := by
  obtain ⟨bytes, document, rfl, hdocument, ht⟩ := h
  unfold read
  simp only [hdocument]
  rw [parse, ht]
  rfl

theorem isDocument_of_read {path : String} {file : Except SystemError ByteArray} {s : Settings}
    (h : read path file = .ok s) : ∃ t, IsDocument file t := by
  unfold read at h
  split at h
  · cases h
  · cases h
  · rename_i bytes
    split at h
    · cases h
    · rename_i document hdocument
      cases ht : Table.ofText? document with
      | none =>
        rw [parse, ht] at h
        cases h
      | some t => exact ⟨t, bytes, document, rfl, hdocument, ht⟩

theorem read_eq_ok_iff {path : String} {file : Except SystemError ByteArray} {s : Settings} :
    read path file = .ok s ↔ ∃ t, IsDocument file t ∧ ofTable? t = some s ∧ s.Usable := by
  constructor
  · intro h
    obtain ⟨t, ht⟩ := isDocument_of_read h
    rw [read_of_isDocument path ht] at h
    split at h
    · cases h
    · rename_i s' hs'
      split at h
      · cases h
      · rename_i hflaw
        cases h
        exact ⟨t, ht, hs', usable_iff.mpr hflaw⟩
  · rintro ⟨t, ht, hs, husable⟩
    rw [read_of_isDocument path ht, hs]
    dsimp only
    rw [usable_iff.mp husable]

/-- **What holds of a file**, read from a path: strictly by `read`, and leniently by
`readOrDefault`. -/
structure Loaded (path : String) (file : Except SystemError ByteArray) : Prop where
  /-- A document with values of the right kinds describes one choice of settings. They are read,
  except if they cannot be used. -/
  conforming : ∀ t, IsDocument file t → Conforms t → ∃ s, Describes t s ∧
    (∀ s', Describes t s' → s' = s) ∧
    (s.Usable ∧ read path file = .ok s ∨
      ¬ s.Usable ∧ ∃ message, read path file = .error (.settingsInvalid path message))
  /-- A document with a value of the wrong kind is refused. -/
  refused : ∀ t, IsDocument file t → ¬ Conforms t →
    ∃ message, read path file = .error (.settingsInvalid path message)
  /-- Nothing else is read. -/
  described : ∀ s, read path file = .ok s →
    ∃ t, IsDocument file t ∧ Conforms t ∧ Describes t s ∧ s.Usable
  /-- Two documents that give the same for a field agree on it, no matter in which order they give it
  and what else they give. -/
  fieldwise : ∀ file' t t' s s', IsDocument file t → IsDocument file' t' →
    Describes t s → Describes t' s' → ∀ α (f : Field α), (∀ v, f.Given t v ↔ f.Given t' v) →
      f.get s = f.get s'
  /-- What is read strictly is taken leniently, … -/
  taken : ∀ s, read path file = .ok s → readOrDefault path file = s
  /-- … and the defaults in every other case: each field has its own. -/
  defaults : (∀ s, read path file ≠ .ok s) → ∀ α (f : Field α),
    f.get (readOrDefault path file) = f.otherwise
  /-- Whatever is taken can be used. -/
  usable : (readOrDefault path file).Usable

/-- **What is read from a file** has in each field what the file gives for it, and its default if the
file gives nothing, and can be used. -/
theorem loads (path : String) (file : Except SystemError ByteArray) : Loaded path file where
  conforming t ht hconforms := by
    have hdistinct := distinct_of_isDocument ht
    obtain ⟨s, hs⟩ := exists_of_conforms hdistinct hconforms
    refine ⟨s, ((ofTable?_iff hdistinct).mp hs).2, fun s' hs' => ?_, ?_⟩
    · have h := (ofTable?_iff hdistinct).mpr ⟨hconforms, hs'⟩
      rw [hs] at h
      exact (Option.some.inj h).symm
    · by_cases husable : s.Usable
      · exact .inl ⟨husable, read_eq_ok_iff.mpr ⟨t, ht, hs, husable⟩⟩
      · refine .inr ⟨husable, ?_⟩
        rw [read_of_isDocument path ht, hs]
        dsimp only
        cases hflaw : s.flaw? with
        | none => exact absurd (usable_iff.mpr hflaw) husable
        | some f => exact ⟨f.text, rfl⟩
  refused t ht hconforms := by
    rw [read_of_isDocument path ht]
    cases hs : ofTable? t with
    | none => exact ⟨notReadable, rfl⟩
    | some s => exact absurd ((ofTable?_iff (distinct_of_isDocument ht)).mp hs).1 hconforms
  described s h := by
    obtain ⟨t, ht, hs, husable⟩ := read_eq_ok_iff.mp h
    obtain ⟨hconforms, hdescribes⟩ := (ofTable?_iff (distinct_of_isDocument ht)).mp hs
    exact ⟨t, ht, hconforms, hdescribes, husable⟩
  fieldwise file' t t' s s' ht ht' hs hs' α f hsame :=
    (hs α f).unique (distinct_of_isDocument ht) hsame (hs' α f)
  taken s h := by rw [readOrDefault, h]
  defaults h α f := by
    rw [readOrDefault]
    split
    · rename_i s hs
      exact absurd hs (h s)
    · exact f.get_default
  usable := by
    rw [readOrDefault]
    split
    · rename_i s hs
      obtain ⟨t, -, -, husable⟩ := read_eq_ok_iff.mp hs
      exact husable
    · exact usable_iff.mpr flaw?_default

end Settings

end SessionMux
