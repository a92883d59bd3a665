import SessionMux.Json.Value
import SessionMux.Message.Basic

/-!
# Messages as JSON

How messages are shown to programs that read the output: every field is present, under its name on
the wire, and null where nothing is known. A choice between several forms is an object whose only
name tells the form, or that name alone where there is nothing more to say.
-/

namespace SessionMux

open Json

/-- A text that may be missing. -/
def optionalText : Option String → Json.Value := .ofOption .string

/-- A number of 32 bits that may be missing. -/
def optionalNumber : Option Int32 → Json.Value := .ofOption fun n => .integer n.toInt

/-- A variable under `key` and `value`. -/
def EnvironmentVariable.toJson (v : EnvironmentVariable) : Json.Value :=
  .object [("key", .string v.key), ("value", optionalText v.value)]

/-- What is known of a shell. -/
def ShellContext.toJson (c : ShellContext) : Json.Value :=
  .object [("pid", optionalNumber c.pid), ("ttys", optionalText c.ttys),
    ("process_name", optionalText c.processName),
    ("current_working_directory", optionalText c.workingDirectory),
    ("session_id", optionalText c.sessionId), ("terminal", optionalText c.terminal),
    ("hostname", optionalText c.hostname), ("shell_path", optionalText c.shellPath),
    ("environment_variables", .array (c.environment.map EnvironmentVariable.toJson)),
    ("preexec", .ofOption .boolean c.preexec), ("alias", optionalText c.shellAlias)]

/-- The shell of a hook. -/
def optionalContext : Option ShellContext → Json.Value := .ofOption ShellContext.toJson

/-- A cell of the terminal. -/
def Coordinates.toJson (p : Coordinates) : Json.Value :=
  .object [("x", .integer p.x.toInt), ("y", .integer p.y.toInt)]

/-- What a hook says, beginning with its shell. -/
def Hook.toJson : Hook → Json.Value
  | .editBuffer h =>
    .object [("context", optionalContext h.context), ("text", .string h.text),
      ("cursor", .integer h.cursor.toInt), ("histno", .integer h.histno.toInt),
      ("terminal_cursor_coordinates", .ofOption Coordinates.toJson h.coordinates)]
  | .prompt h => .object [("context", optionalContext h.context)]
  | .preExec h =>
    .object [("context", optionalContext h.context), ("command", optionalText h.command)]
  | .postExec h =>
    .object [("context", optionalContext h.context), ("command", optionalText h.command),
      ("exit_code", optionalNumber h.exitCode)]
  | .interceptedKey h =>
    .object [("context", optionalContext h.context), ("action", .string h.action),
      ("key", optionalText h.key)]

/-- The name of the form of a hook. -/
def HookKind.tag : HookKind → String
  | .editBuffer => "EditBuffer"
  | .prompt => "Prompt"
  | .preExec => "PreExec"
  | .postExec => "PostExec"
  | .interceptedKey => "InterceptedKey"

/-- What is printed of a hook: the name of its kind, its session and what it says. -/
def HookEvent.toJson (e : HookEvent) : Json.Value :=
  .object [("event", .string e.hook.kind.name), ("session_id", .string e.session),
    ("hook", e.hook.toJson)]

/-- The end of a process and what it printed. -/
def ProcessResult.toJson (r : ProcessResult) : Json.Value :=
  .object [("stdout", .string r.stdout), ("stderr", .string r.stderr),
    ("exit_code", .integer r.exitCode.toInt)]

/-- What an inbound message says. -/
def Event.toJson : Event → Json.Value
  | .hook h => .object [(h.kind.tag, h.toJson)]
  | .processResult r => .object [("RunProcessResponse", r.toJson)]
  | .pong => .string "Pong"

/-- A message from the host. -/
def InboundMessage.toJson (m : InboundMessage) : Json.Value :=
  .object [("session_id", optionalText m.session),
    ("in_reply_to", .ofOption (fun i => .integer i.value.toNat) m.inReplyTo),
    ("event", m.event.toJson)]

/-- A count that may be missing. -/
def optionalCount : Option UInt64 → Json.Value := .ofOption fun n => .integer n.toNat

/-- Texts in their order. -/
def textList (l : List String) : Json.Value := .array (l.map .string)

/-- What is asked of the keys of a terminal. -/
def Intercept.toJson : Intercept → Json.Value
  | .setIntercepts i => .object [("SetIntercepts", .object [
      ("intercept_bound_keystrokes", .boolean i.boundKeystrokes),
      ("intercept_global_keystrokes", .boolean i.globalKeystrokes),
      ("actions", .array (i.actions.map fun a => .object [("identifier", .string a.identifier),
        ("default_bindings", textList a.defaultBindings)])),
      ("override_actions", .boolean i.overrideActions)])]
  | .setVisible v => .object [("SetVisible", .object [("visible", .boolean v)])]

/-- What is asked of the host. -/
def Request.toJson : Request → Json.Value
  | .insertText r => .object [("InsertText", .object [
      ("insertion", optionalText r.insertion), ("deletion", optionalCount r.deletion),
      ("offset", .ofOption (fun n => .integer n.toInt) r.offset),
      ("immediate", .ofOption .boolean r.immediate),
      ("insertion_buffer", optionalText r.insertionBuffer),
      ("insert_during_command", .ofOption .boolean r.insertDuringCommand)])]
  | .setBuffer r => .object [("SetBuffer", .object [
      ("text", .string r.text), ("cursor_position", optionalCount r.cursorPosition)])]
  | .intercept r => .object [("Intercept", r.toJson)]
  | .runProcess r => .object [("RunProcess", .object [
      ("executable", .string r.executable), ("arguments", textList r.arguments),
      ("working_directory", optionalText r.workingDirectory),
      ("env", .array (r.environment.map EnvironmentVariable.toJson))])]
  | .ping => .string "Ping"

/-- A message to the host. -/
def OutboundMessage.toJson (m : OutboundMessage) : Json.Value :=
  .object [("id", .integer m.id.value.toNat), ("session_id", optionalText m.session),
    ("request", m.request.toJson)]

end SessionMux
