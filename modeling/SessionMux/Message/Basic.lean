import SessionMux.Message.Request

/-!
# Messages

Inbound messages go from the host to the user interface: a hook of a session, or the answer to a
request. Outbound messages go the other way: a request under its id, addressed to a session or,
without one, to the connection.
-/

namespace SessionMux

/-- Names a request, so that the message that answers it can be told. -/
structure RequestId where
  value : UInt64
deriving DecidableEq

/-- The text of a request id: `#` and its number. -/
def RequestId.text (id : RequestId) : String := s!"#{id.value.toNat}"

/-- How a process ended and what it printed. -/
structure ProcessResult where
  stdout : String
  stderr : String
  exitCode : Int32
deriving DecidableEq

/-- What an inbound message says. -/
inductive Event where
  | hook (h : Hook)
  | processResult (r : ProcessResult)
  | pong
deriving DecidableEq

/-- The name of an event in reports. -/
def Event.name : Event → String
  | .hook h => h.kind.name
  | .processResult _ => "run_process_response"
  | .pong => "pong"

/-- From the host: an event, the session that raised it, and the request that it answers. -/
structure InboundMessage where
  session : Option String
  inReplyTo : Option RequestId
  event : Event
deriving DecidableEq

/-- To the host: a request under its id and the session it is for. -/
structure OutboundMessage where
  id : RequestId
  session : Option String
  request : Request
deriving DecidableEq

/-- The answer to a request: same session, under the id of the request. -/
def OutboundMessage.reply (m : OutboundMessage) (e : Event) : InboundMessage where
  session := m.session
  inReplyTo := some m.id
  event := e

/-- How a request is named in errors: its kind and its id. -/
def OutboundMessage.label (m : OutboundMessage) : String := m.request.name ++ " " ++ m.id.text

/-! ## Binary forms -/

namespace Record

instance : Record RequestId where
  write v := write v.value
  read := return { value := ← read }

instance : Record ProcessResult where
  write v := write v.stdout ++ write v.stderr ++ write v.exitCode
  read := return { stdout := ← read, stderr := ← read, exitCode := ← read }

instance : Record Event where
  write
    | .hook (.editBuffer h) => writeNumber 4 0 ++ write h
    | .hook (.prompt h) => writeNumber 4 1 ++ write h
    | .hook (.preExec h) => writeNumber 4 2 ++ write h
    | .hook (.postExec h) => writeNumber 4 3 ++ write h
    | .hook (.interceptedKey h) => writeNumber 4 4 ++ write h
    | .processResult r => writeNumber 4 5 ++ write r
    | .pong => writeNumber 4 6
  read := do
    match ← alternative 7 with
    | 0 => return .hook (.editBuffer (← read))
    | 1 => return .hook (.prompt (← read))
    | 2 => return .hook (.preExec (← read))
    | 3 => return .hook (.postExec (← read))
    | 4 => return .hook (.interceptedKey (← read))
    | 5 => return .processResult (← read)
    | _ => return .pong

instance : Record InboundMessage where
  write v := write v.session ++ write v.inReplyTo ++ write v.event
  read := return { session := ← read, inReplyTo := ← read, event := ← read }

instance : Record OutboundMessage where
  write v := write v.id ++ write v.session ++ write v.request
  read := return { id := ← read, session := ← read, request := ← read }

end Record

end SessionMux
