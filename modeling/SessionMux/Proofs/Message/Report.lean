import SessionMux.Message.Report
import SessionMux.Proofs.Json.RoundTrip

/-!
# Hooks read off their JSON

What is shown of a hook says everything about it. Whoever knows the kinds of hooks and their fields can read
the hook off its JSON again, field by field under their names: a null means that nothing is known, and a
number has to fit its type.

* `Json.Value.field?`, `text?`, `int32?`, … — the parts of a value.
* `Recovers` — a reader takes back what a writer shows.
* `recovers_hook`, **`recovers_hookEvent`** — hooks of every kind, and events.
* `HookKind.fieldNames`, `Hook.toJson_eq_object` — which fields are shown.
-/

namespace SessionMux

open Json

namespace Json.Value

/-- The field of an object under a name. -/
def field? (name : String) : Value → Option Value
  | .object fields => fields.lookup name
  | _ => none

def text? : Value → Option String
  | .string s => some s
  | _ => none

def truth? : Value → Option Bool
  | .boolean b => some b
  | _ => none

/-- An integer of 32 bits. -/
def int32? : Value → Option Int32
  | .integer n => if Int32.minValue.toInt ≤ n ∧ n ≤ Int32.maxValue.toInt then some (.ofInt n) else none
  | _ => none

/-- An integer of 64 bits. -/
def int64? : Value → Option Int64
  | .integer n => if Int64.minValue.toInt ≤ n ∧ n ≤ Int64.maxValue.toInt then some (.ofInt n) else none
  | _ => none

/-- Something that may be missing. -/
def optional? {α : Type} (read : Value → Option α) : Value → Option (Option α)
  | .null => some none
  | v => (read v).map some

def list? {α : Type} (read : Value → Option α) : Value → Option (List α)
  | .array items => items.mapM read
  | _ => none

end Json.Value

/-! ## The readers -/

def EnvironmentVariable.ofJson? (v : Json.Value) : Option EnvironmentVariable := do
  let key ← (← v.field? "key").text?
  let value ← (← v.field? "value").optional? Value.text?
  return { key, value }

def ShellContext.ofJson? (v : Json.Value) : Option ShellContext := do
  let pid ← (← v.field? "pid").optional? Value.int32?
  let ttys ← (← v.field? "ttys").optional? Value.text?
  let processName ← (← v.field? "process_name").optional? Value.text?
  let workingDirectory ← (← v.field? "current_working_directory").optional? Value.text?
  let sessionId ← (← v.field? "session_id").optional? Value.text?
  let terminal ← (← v.field? "terminal").optional? Value.text?
  let hostname ← (← v.field? "hostname").optional? Value.text?
  let shellPath ← (← v.field? "shell_path").optional? Value.text?
  let environment ← (← v.field? "environment_variables").list? EnvironmentVariable.ofJson?
  let preexec ← (← v.field? "preexec").optional? Value.truth?
  let shellAlias ← (← v.field? "alias").optional? Value.text?
  return { pid, ttys, processName, workingDirectory, sessionId, terminal, hostname, shellPath,
           environment, preexec, shellAlias }

def Coordinates.ofJson? (v : Json.Value) : Option Coordinates := do
  let x ← (← v.field? "x").int32?
  let y ← (← v.field? "y").int32?
  return { x, y }

/-- A hook of a kind that is known. -/
def Hook.ofJson? (kind : HookKind) (v : Json.Value) : Option Hook := do
  let context ← (← v.field? "context").optional? ShellContext.ofJson?
  match kind with
  | .editBuffer =>
    let text ← (← v.field? "text").text?
    let cursor ← (← v.field? "cursor").int64?
    let histno ← (← v.field? "histno").int64?
    let coordinates ← (← v.field? "terminal_cursor_coordinates").optional? Coordinates.ofJson?
    return .editBuffer { context, text, cursor, histno, coordinates }
  | .prompt => return .prompt { context }
  | .preExec =>
    let command ← (← v.field? "command").optional? Value.text?
    return .preExec { context, command }
  | .postExec =>
    let command ← (← v.field? "command").optional? Value.text?
    let exitCode ← (← v.field? "exit_code").optional? Value.int32?
    return .postExec { context, command, exitCode }
  | .interceptedKey =>
    let action ← (← v.field? "action").text?
    let key ← (← v.field? "key").optional? Value.text?
    return .interceptedKey { context, action, key }

/-- The kind of a name. -/
def HookKind.ofName? : String → Option HookKind
  | "edit_buffer" => some .editBuffer
  | "prompt" => some .prompt
  | "pre_exec" => some .preExec
  | "post_exec" => some .postExec
  | "intercepted_key" => some .interceptedKey
  | _ => none

/-- An event. -/
def HookEvent.ofJson? (v : Json.Value) : Option HookEvent := do
  let kind ← HookKind.ofName? (← (← v.field? "event").text?)
  let session ← (← v.field? "session_id").text?
  let hook ← Hook.ofJson? kind (← v.field? "hook")
  return ⟨session, hook⟩

/-! ## What is shown is recovered -/

/-- **What is written is read back**, for everything that there is to write. -/
def Recovers {α : Type} (write : α → Json.Value) (read : Json.Value → Option α) : Prop :=
  ∀ a, read (write a) = some a

section Parts

variable {α : Type} {write : α → Json.Value} {read : Json.Value → Option α}

theorem recovers_int32 : Recovers (fun n : Int32 => .integer n.toInt) Value.int32? := by
  intro n
  simp only [Value.int32?, if_pos (And.intro n.minValue_le_toInt n.toInt_le), Int32.ofInt_toInt]

theorem recovers_int64 : Recovers (fun n : Int64 => .integer n.toInt) Value.int64? := by
  intro n
  simp only [Value.int64?, if_pos (And.intro n.minValue_le_toInt n.toInt_le), Int64.ofInt_toInt]

/-- What is known is not shown as null, so that it is told from what is not known. -/
theorem recovers_optional (h : Recovers write read) (hnull : ∀ a, write a ≠ .null) :
    Recovers (Value.ofOption write) (Value.optional? read) := by
  intro a
  cases a with
  | none => rfl
  | some a =>
    rw [Value.ofOption, Value.optional?, h a]
    · rfl
    · exact hnull a

theorem recovers_list (h : Recovers write read) :
    Recovers (fun l => .array (l.map write)) (Value.list? read) := by
  intro l
  show (l.map write).mapM read = some l
  induction l with
  | nil => rfl
  | cons a l ih => simp [List.mapM_cons, h a, ih]

theorem recovers_optionalText : Recovers optionalText (Value.optional? Value.text?) :=
  recovers_optional (fun _ => rfl) (by simp)

theorem recovers_optionalNumber : Recovers optionalNumber (Value.optional? Value.int32?) :=
  recovers_optional recovers_int32 (by simp)

theorem recovers_optionalTruth : Recovers (Value.ofOption Value.boolean) (Value.optional? Value.truth?) :=
  recovers_optional (fun _ => rfl) (by simp)

end Parts

theorem recovers_environmentVariable :
    Recovers EnvironmentVariable.toJson EnvironmentVariable.ofJson? := by
  intro v
  simp [EnvironmentVariable.toJson, EnvironmentVariable.ofJson?, Value.field?, List.lookup_cons, Value.text?,
    recovers_optionalText v.value]

theorem recovers_shellContext : Recovers ShellContext.toJson ShellContext.ofJson? := by
  intro c
  simp [ShellContext.toJson, ShellContext.ofJson?, Value.field?, List.lookup_cons,
    recovers_optionalNumber c.pid, recovers_optionalText _,
    recovers_list recovers_environmentVariable c.environment, recovers_optionalTruth c.preexec]

theorem recovers_optionalContext :
    Recovers optionalContext (Value.optional? ShellContext.ofJson?) :=
  recovers_optional recovers_shellContext (by simp [ShellContext.toJson])

theorem recovers_coordinates : Recovers Coordinates.toJson Coordinates.ofJson? := by
  intro p
  simp [Coordinates.toJson, Coordinates.ofJson?, Value.field?, List.lookup_cons, recovers_int32 _]

theorem recovers_optionalCoordinates :
    Recovers (Value.ofOption Coordinates.toJson) (Value.optional? Coordinates.ofJson?) :=
  recovers_optional recovers_coordinates (by simp [Coordinates.toJson])

/-- **A hook is recovered**, if its kind is known. -/
theorem recovers_hook (h : Hook) : Hook.ofJson? h.kind h.toJson = some h := by
  cases h with
  | editBuffer h =>
    simp [Hook.toJson, Hook.kind, Hook.ofJson?, Value.field?, List.lookup_cons, Value.text?,
      recovers_optionalContext h.context, recovers_int64 _, recovers_optionalCoordinates h.coordinates]
  | prompt h =>
    simp [Hook.toJson, Hook.kind, Hook.ofJson?, Value.field?, recovers_optionalContext h.context]
  | preExec h =>
    simp [Hook.toJson, Hook.kind, Hook.ofJson?, Value.field?, List.lookup_cons,
      recovers_optionalContext h.context, recovers_optionalText h.command]
  | postExec h =>
    simp [Hook.toJson, Hook.kind, Hook.ofJson?, Value.field?, List.lookup_cons,
      recovers_optionalContext h.context, recovers_optionalText h.command,
      recovers_optionalNumber h.exitCode]
  | interceptedKey h =>
    simp [Hook.toJson, Hook.kind, Hook.ofJson?, Value.field?, List.lookup_cons, Value.text?,
      recovers_optionalContext h.context, recovers_optionalText h.key]

/-- A kind is known by its name. -/
theorem ofName?_name (kind : HookKind) : HookKind.ofName? kind.name = some kind := by
  cases kind <;> rfl

/-- **An event is recovered.** -/
theorem recovers_hookEvent : Recovers HookEvent.toJson HookEvent.ofJson? := by
  intro e
  simp [HookEvent.toJson, HookEvent.ofJson?, Value.field?, List.lookup_cons, Value.text?, ofName?_name,
    recovers_hook]

/-! ## Which fields are shown -/

/-- The fields of the hooks of a kind, under their names on the wire. -/
def HookKind.fieldNames : HookKind → List String
  | .editBuffer => ["context", "text", "cursor", "histno", "terminal_cursor_coordinates"]
  | .prompt => ["context"]
  | .preExec => ["context", "command"]
  | .postExec => ["context", "command", "exit_code"]
  | .interceptedKey => ["context", "action", "key"]

/-- **A hook is shown with all its fields**, also those of which nothing is known, and with no others. -/
theorem Hook.toJson_eq_object (h : Hook) :
    ∃ fields, h.toJson = .object fields ∧ fields.map Prod.fst = h.kind.fieldNames := by
  cases h <;> exact ⟨_, rfl, rfl⟩

end SessionMux
