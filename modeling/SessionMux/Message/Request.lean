import SessionMux.Message.Hook

/-!
# Requests

What the user interface asks of the host: to edit or replace a session's command line, to change
which keys are kept from the shell, to run a process, and to answer a ping.
-/

namespace SessionMux

/-- Edit the command line: delete before the cursor and insert in its place. -/
structure InsertText where
  insertion : Option String := none
  deletion : Option UInt64 := none
  offset : Option Int64 := none
  immediate : Option Bool := none
  insertionBuffer : Option String := none
  insertDuringCommand : Option Bool := none
deriving DecidableEq

/-- Replace the command line; without a position the cursor goes to the end. -/
structure SetBuffer where
  text : String
  cursorPosition : Option UInt64
deriving DecidableEq

/-- An action of the user interface and the keys that trigger it by default. -/
structure KeyAction where
  identifier : String
  defaultBindings : List String
deriving DecidableEq

/-- Which keystrokes the host forwards. -/
structure Intercepts where
  boundKeystrokes : Bool
  globalKeystrokes : Bool
  actions : List KeyAction
  overrideActions : Bool
deriving DecidableEq

/-- Change how keys are kept from the shell. -/
inductive Intercept where
  | setIntercepts (i : Intercepts)
  | setVisible (visible : Bool)
deriving DecidableEq

/-- Run a process in the session's environment. -/
structure RunProcess where
  executable : String
  arguments : List String
  workingDirectory : Option String
  environment : List EnvironmentVariable
deriving DecidableEq

/-- A request of any kind. -/
inductive Request where
  | insertText (r : InsertText)
  | setBuffer (r : SetBuffer)
  | intercept (r : Intercept)
  | runProcess (r : RunProcess)
  | ping
deriving DecidableEq

/-- The name of a request in reports. -/
def Request.name : Request → String
  | .insertText _ => "insert_text"
  | .setBuffer _ => "set_buffer"
  | .intercept _ => "intercept"
  | .runProcess _ => "run_process"
  | .ping => "ping"

/-! ## Binary forms -/

namespace Record

instance : Record InsertText where
  write v :=
    write v.insertion ++ write v.deletion ++ write v.offset ++ write v.immediate ++
    write v.insertionBuffer ++ write v.insertDuringCommand
  read := return {
    insertion := ← read, deletion := ← read, offset := ← read, immediate := ← read,
    insertionBuffer := ← read, insertDuringCommand := ← read }

instance : Record SetBuffer where
  write v := write v.text ++ write v.cursorPosition
  read := return { text := ← read, cursorPosition := ← read }

instance : Record KeyAction where
  write v := write v.identifier ++ write v.defaultBindings
  read := return { identifier := ← read, defaultBindings := ← read }

instance : Record Intercepts where
  write v :=
    write v.boundKeystrokes ++ write v.globalKeystrokes ++ write v.actions ++
    write v.overrideActions
  read := return {
    boundKeystrokes := ← read, globalKeystrokes := ← read, actions := ← read,
    overrideActions := ← read }

instance : Record Intercept where
  write
    | .setIntercepts i => writeNumber 4 0 ++ write i
    | .setVisible v => writeNumber 4 1 ++ write v
  read := do
    match ← alternative 2 with
    | 0 => return .setIntercepts (← read)
    | _ => return .setVisible (← read)

instance : Record RunProcess where
  write v :=
    write v.executable ++ write v.arguments ++ write v.workingDirectory ++ write v.environment
  read := return {
    executable := ← read, arguments := ← read, workingDirectory := ← read,
    environment := ← read }

instance : Record Request where
  write
    | .insertText r => writeNumber 4 0 ++ write r
    | .setBuffer r => writeNumber 4 1 ++ write r
    | .intercept r => writeNumber 4 2 ++ write r
    | .runProcess r => writeNumber 4 3 ++ write r
    | .ping => writeNumber 4 4
  read := do
    match ← alternative 5 with
    | 0 => return .insertText (← read)
    | 1 => return .setBuffer (← read)
    | 2 => return .intercept (← read)
    | 3 => return .runProcess (← read)
    | _ => return .ping

end Record

end SessionMux
