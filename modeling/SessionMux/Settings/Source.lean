import SessionMux.Settings.Basic
import SessionMux.Text.Utf8
import SessionMux.Toml.Document

/-!
# Settings from a document

A settings file is a TOML document with one table for each section. Fields and sections that are
missing have their defaults, and names that mean nothing are passed over. A section may also be an
array, which gives its fields by position.

* `Settings.ofTable?` reads a document; there is no result where a value is of the wrong kind.
* `Settings.read` goes from the answer of the file system to settings without flaws.
* `Settings.readOrDefault` takes the defaults instead of any fault.
-/

namespace SessionMux

namespace Toml

/-- What is given for a field of a section, by its position and its name. -/
abbrev Section : Type := Nat → String → Option Value

/-- The fields of a section: by name in a table, by position in an array. A moment counts as a table
of one name that no section has. -/
def Value.section? : Value → Option Section
  | .table entries => some fun _ name => entries.lookup name
  | .array items => some fun position _ => items[position]?
  | .moment => some fun _ _ => none
  | _ => none

/-- A text. -/
def Value.string? : Value → Option String
  | .string s => some s
  | _ => none

/-- A truth value. -/
def Value.boolean? : Value → Option Bool
  | .boolean b => some b
  | _ => none

/-- A natural number below a bound. -/
def Value.natural? (bound : Nat) : Value → Option Nat
  | .integer n => if 0 ≤ n && n < bound then some n.toNat else none
  | _ => none

/-- A list or a table with nothing in it. -/
def Value.isVoid : Value → Bool
  | .array [] | .table [] => true
  | _ => false

/-- One of several names: as a text, or as the only name in a table, with nothing under it. -/
def Value.choice? {α : Type} (names : List (String × α)) : Value → Option α
  | .string s => names.lookup s
  | .table [(s, v)] => if v.isVoid then names.lookup s else none
  | _ => none

/-- A field that may be missing. -/
def Section.field {α : Type} (given : Section) (position : Nat) (name : String)
    (read : Value → Option α) (otherwise : α) : Option α :=
  match given position name with
  | some v => read v
  | none => some otherwise

end Toml

open Toml

/-- The connection section: `url`, `attempts`, `retry_delay_ms`. -/
def ConnectionSettings.ofValue? (v : Value) : Option ConnectionSettings := do
  let s ← v.section?
  let d : ConnectionSettings := {}
  let url ← s.field 0 "url" Value.string? d.url
  let attempts ← s.field 1 "attempts" (Value.natural? (Nat.pow 2 32)) d.attempts.toNat
  let retryDelay ← s.field 2 "retry_delay_ms" (Value.natural? (Nat.pow 2 64)) d.retryDelay
  return { url, attempts := attempts.toUInt32, retryDelay }

/-- The packets section: `gzip`, `malformed_lines`. -/
def PacketSettings.ofValue? (v : Value) : Option PacketSettings := do
  let s ← v.section?
  let d : PacketSettings := {}
  let gzip ← s.field 0 "gzip" Value.boolean? d.gzip
  let malformedLines ← s.field 1 "malformed_lines"
    (Value.choice? [("skip", .skip), ("stall", .stall)]) d.malformedLines
  return { gzip, malformedLines }

/-- The requests section: `timeout_ms`. -/
def RequestSettings.ofValue? (v : Value) : Option RequestSettings := do
  let s ← v.section?
  let d : RequestSettings := {}
  return { timeout := ← s.field 0 "timeout_ms" (Value.natural? (Nat.pow 2 64)) d.timeout }

/-- The liveness section: `interval_ms`, `timeout_ms`, `report`. -/
def HeartbeatOptions.ofValue? (v : Value) : Option HeartbeatOptions := do
  let s ← v.section?
  let d : HeartbeatOptions := {}
  let interval ← s.field 0 "interval_ms" (Value.natural? (Nat.pow 2 64)) d.interval
  let timeout ← s.field 1 "timeout_ms" (Value.natural? (Nat.pow 2 64)) d.timeout
  let report ← s.field 2 "report"
    (Value.choice? [("on_transition", .onTransition), ("every_failure", .everyFailure)]) d.report
  return { interval, timeout, report }

namespace Settings

/-- Reads the sections of a document. -/
def ofTable? (t : Table) : Option Settings := do
  let given : Section := fun _ name => t.lookup name
  return {
    connection := ← given.field 0 "connection" ConnectionSettings.ofValue? {}
    packets := ← given.field 1 "packets" PacketSettings.ofValue? {}
    requests := ← given.field 2 "requests" RequestSettings.ofValue? {}
    liveness := ← given.field 3 "liveness" HeartbeatOptions.ofValue? {} }

/-- What is said of a file that is no document, or has a value of the wrong kind. -/
def notReadable : String := "TOML parse error"

/-- What is said of a file that is no text. -/
def notText : IoFault := .said .invalidData "stream did not contain valid UTF-8"

/-- Reads settings from a document and checks them. The path is that of the file, for reports. -/
def parse (path document : String) : Except MuxFault Settings :=
  match (Table.ofText? document).bind ofTable? with
  | none => .error (.settingsInvalid path notReadable)
  | some s =>
    match s.flaw? with
    | some f => .error (.settingsInvalid path f.text)
    | none => .ok s

/-- Settings from what the file system answers for the file at a path. -/
def read (path : String) : Except SystemError ByteArray → Except MuxFault Settings
  | .error .noSuchEntry => .error (.settingsNotFound path)
  | .error e => .error (.fileRead path (.system e))
  | .ok bytes =>
    match Utf8.decode bytes with
    | .error _ => .error (.fileRead path notText)
    | .ok document => parse path document

/-- The same, with the defaults in place of any fault. -/
def readOrDefault (path : String) (file : Except SystemError ByteArray) : Settings :=
  match read path file with
  | .ok s => s
  | .error _ => {}

end Settings

end SessionMux
