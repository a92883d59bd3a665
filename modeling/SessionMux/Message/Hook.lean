import SessionMux.Record.Basic

/-!
# Hooks

What a terminal session reports while its shell runs: the edited command line, the prompt, the
start and the end of a command, and a key that was kept from the shell. A hook comes with the
session that raised it.
-/

namespace SessionMux

/-- A variable of a process's environment; a variable may be named without a value. -/
structure EnvironmentVariable where
  key : String
  value : Option String
deriving DecidableEq

/-- What is known of the shell that raised a hook. -/
structure ShellContext where
  pid : Option Int32
  ttys : Option String
  processName : Option String
  workingDirectory : Option String
  sessionId : Option String
  terminal : Option String
  hostname : Option String
  shellPath : Option String
  environment : List EnvironmentVariable
  preexec : Option Bool
  shellAlias : Option String
deriving DecidableEq

/-- A cell of the terminal's screen. -/
structure Coordinates where
  x : Int32
  y : Int32
deriving DecidableEq

/-- The command line has been edited. -/
structure EditBuffer where
  context : Option ShellContext
  text : String
  cursor : Int64
  histno : Int64
  coordinates : Option Coordinates
deriving DecidableEq

/-- The shell shows its prompt. -/
structure Prompt where
  context : Option ShellContext
deriving DecidableEq

/-- A command is about to run. -/
structure PreExec where
  context : Option ShellContext
  command : Option String
deriving DecidableEq

/-- A command has ended. -/
structure PostExec where
  context : Option ShellContext
  command : Option String
  exitCode : Option Int32
deriving DecidableEq

/-- A key was kept from the shell because an action is bound to it. -/
structure InterceptedKey where
  context : Option ShellContext
  action : String
  key : Option String
deriving DecidableEq

/-- The kinds of hooks. -/
inductive HookKind where
  | editBuffer
  | prompt
  | preExec
  | postExec
  | interceptedKey
deriving DecidableEq, Inhabited

/-- A hook of any kind. -/
inductive Hook where
  | editBuffer (h : EditBuffer)
  | prompt (h : Prompt)
  | preExec (h : PreExec)
  | postExec (h : PostExec)
  | interceptedKey (h : InterceptedKey)
deriving DecidableEq

def Hook.kind : Hook → HookKind
  | .editBuffer _ => .editBuffer
  | .prompt _ => .prompt
  | .preExec _ => .preExec
  | .postExec _ => .postExec
  | .interceptedKey _ => .interceptedKey

/-- The name of a kind in reports and in printed events. -/
def HookKind.name : HookKind → String
  | .editBuffer => "edit_buffer"
  | .prompt => "prompt"
  | .preExec => "pre_exec"
  | .postExec => "post_exec"
  | .interceptedKey => "intercepted_key"

/-- A hook together with the session that raised it. -/
structure HookEvent where
  session : String
  hook : Hook
deriving DecidableEq

/-! ## Binary forms -/

namespace Record

instance : Record EnvironmentVariable where
  write v := write v.key ++ write v.value
  read := return { key := ← read, value := ← read }

instance : Record ShellContext where
  write v :=
    write v.pid ++ write v.ttys ++ write v.processName ++ write v.workingDirectory ++
    write v.sessionId ++ write v.terminal ++ write v.hostname ++ write v.shellPath ++
    write v.environment ++ write v.preexec ++ write v.shellAlias
  read := return {
    pid := ← read, ttys := ← read, processName := ← read, workingDirectory := ← read,
    sessionId := ← read, terminal := ← read, hostname := ← read, shellPath := ← read,
    environment := ← read, preexec := ← read, shellAlias := ← read }

instance : Record Coordinates where
  write v := write v.x ++ write v.y
  read := return { x := ← read, y := ← read }

instance : Record EditBuffer where
  write v :=
    write v.context ++ write v.text ++ write v.cursor ++ write v.histno ++ write v.coordinates
  read := return {
    context := ← read, text := ← read, cursor := ← read, histno := ← read,
    coordinates := ← read }

instance : Record Prompt where
  write v := write v.context
  read := return { context := ← read }

instance : Record PreExec where
  write v := write v.context ++ write v.command
  read := return { context := ← read, command := ← read }

instance : Record PostExec where
  write v := write v.context ++ write v.command ++ write v.exitCode
  read := return { context := ← read, command := ← read, exitCode := ← read }

instance : Record InterceptedKey where
  write v := write v.context ++ write v.action ++ write v.key
  read := return { context := ← read, action := ← read, key := ← read }

end Record

end SessionMux
