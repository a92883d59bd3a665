import SessionMux.Proofs.Record.Exact
import SessionMux.Wire.Envelope

/-!
# The records of messages are exact

Every record that goes over the wire is read exactly as it is written: the parts of hooks, requests
and replies, both kinds of messages, and envelopes. A record with fields is exact because its fields
are, in the order in which they stand; a choice is exact because its number is told first, and then
what was chosen. A value fits if everything in it does.
-/

namespace SessionMux.Record

open Octets

/-! ## Hooks -/

instance : Sized EnvironmentVariable where
  Fits v := Fits v.key ∧ Fits v.value

instance : Exact EnvironmentVariable where
  describes := by
    refine (Describes.record EnvironmentVariable.key fun _ =>
      .last EnvironmentVariable.value ?_).congr (fun _ => Iff.rfl) ?_
    · rintro _ ⟨⟩
      simp [eq_comm]
    · intro v
      rw [show write v = write v.key ++ write v.value from rfl, toList_append]

instance : Sized ShellContext where
  Fits v :=
    Fits v.pid ∧ Fits v.ttys ∧ Fits v.processName ∧ Fits v.workingDirectory ∧ Fits v.sessionId ∧
    Fits v.terminal ∧ Fits v.hostname ∧ Fits v.shellPath ∧ Fits v.environment ∧ Fits v.preexec ∧
    Fits v.shellAlias

instance : Exact ShellContext where
  describes := by
    refine (Describes.record ShellContext.pid fun _ => .field ShellContext.ttys fun _ =>
      .field ShellContext.processName fun _ => .field ShellContext.workingDirectory fun _ =>
      .field ShellContext.sessionId fun _ => .field ShellContext.terminal fun _ =>
      .field ShellContext.hostname fun _ => .field ShellContext.shellPath fun _ =>
      .field ShellContext.environment fun _ => .field ShellContext.preexec fun _ =>
      .last ShellContext.shellAlias ?_).congr (fun _ => Iff.rfl) ?_
    · rintro _ ⟨⟩
      simp [eq_comm, and_assoc]
    · intro v
      rw [show write v = write v.pid ++ write v.ttys ++ write v.processName ++
        write v.workingDirectory ++ write v.sessionId ++ write v.terminal ++ write v.hostname ++
        write v.shellPath ++ write v.environment ++ write v.preexec ++ write v.shellAlias from rfl]
      simp only [toList_append, List.append_assoc]

instance : Sized Coordinates where
  Fits v := Fits v.x ∧ Fits v.y

instance : Exact Coordinates where
  describes := by
    refine (Describes.record Coordinates.x fun _ =>
      .last Coordinates.y ?_).congr (fun _ => Iff.rfl) ?_
    · rintro _ ⟨⟩
      simp [eq_comm]
    · intro v
      rw [show write v = write v.x ++ write v.y from rfl, toList_append]

instance : Sized EditBuffer where
  Fits v := Fits v.context ∧ Fits v.text ∧ Fits v.cursor ∧ Fits v.histno ∧ Fits v.coordinates

instance : Exact EditBuffer where
  describes := by
    refine (Describes.record EditBuffer.context fun _ => .field EditBuffer.text fun _ =>
      .field EditBuffer.cursor fun _ => .field EditBuffer.histno fun _ =>
      .last EditBuffer.coordinates ?_).congr (fun _ => Iff.rfl) ?_
    · rintro _ ⟨⟩
      simp [eq_comm, and_assoc]
    · intro v
      rw [show write v = write v.context ++ write v.text ++ write v.cursor ++ write v.histno ++
        write v.coordinates from rfl]
      simp only [toList_append, List.append_assoc]

instance : Sized Prompt where
  Fits v := Fits v.context

instance : Exact Prompt where
  describes := Describes.single Prompt.context (by rintro _ ⟨⟩; simp [eq_comm])

instance : Sized PreExec where
  Fits v := Fits v.context ∧ Fits v.command

instance : Exact PreExec where
  describes := by
    refine (Describes.record PreExec.context fun _ =>
      .last PreExec.command ?_).congr (fun _ => Iff.rfl) ?_
    · rintro _ ⟨⟩
      simp [eq_comm]
    · intro v
      rw [show write v = write v.context ++ write v.command from rfl, toList_append]

instance : Sized PostExec where
  Fits v := Fits v.context ∧ Fits v.command ∧ Fits v.exitCode

instance : Exact PostExec where
  describes := by
    refine (Describes.record PostExec.context fun _ => .field PostExec.command fun _ =>
      .last PostExec.exitCode ?_).congr (fun _ => Iff.rfl) ?_
    · rintro _ ⟨⟩
      simp [eq_comm, and_assoc]
    · intro v
      rw [show write v = write v.context ++ write v.command ++ write v.exitCode from rfl]
      simp only [toList_append, List.append_assoc]

instance : Sized InterceptedKey where
  Fits v := Fits v.context ∧ Fits v.action ∧ Fits v.key

instance : Exact InterceptedKey where
  describes := by
    refine (Describes.record InterceptedKey.context fun _ => .field InterceptedKey.action fun _ =>
      .last InterceptedKey.key ?_).congr (fun _ => Iff.rfl) ?_
    · rintro _ ⟨⟩
      simp [eq_comm, and_assoc]
    · intro v
      rw [show write v = write v.context ++ write v.action ++ write v.key from rfl]
      simp only [toList_append, List.append_assoc]

/-! ## Requests -/

instance : Sized InsertText where
  Fits v :=
    Fits v.insertion ∧ Fits v.deletion ∧ Fits v.offset ∧ Fits v.immediate ∧
    Fits v.insertionBuffer ∧ Fits v.insertDuringCommand

instance : Exact InsertText where
  describes := by
    refine (Describes.record InsertText.insertion fun _ => .field InsertText.deletion fun _ =>
      .field InsertText.offset fun _ => .field InsertText.immediate fun _ =>
      .field InsertText.insertionBuffer fun _ =>
      .last InsertText.insertDuringCommand ?_).congr (fun _ => Iff.rfl) ?_
    · rintro _ ⟨⟩
      simp [eq_comm, and_assoc]
    · intro v
      rw [show write v = write v.insertion ++ write v.deletion ++ write v.offset ++
        write v.immediate ++ write v.insertionBuffer ++ write v.insertDuringCommand from rfl]
      simp only [toList_append, List.append_assoc]

instance : Sized SetBuffer where
  Fits v := Fits v.text ∧ Fits v.cursorPosition

instance : Exact SetBuffer where
  describes := by
    refine (Describes.record SetBuffer.text fun _ =>
      .last SetBuffer.cursorPosition ?_).congr (fun _ => Iff.rfl) ?_
    · rintro _ ⟨⟩
      simp [eq_comm]
    · intro v
      rw [show write v = write v.text ++ write v.cursorPosition from rfl, toList_append]

instance : Sized KeyAction where
  Fits v := Fits v.identifier ∧ Fits v.defaultBindings

instance : Exact KeyAction where
  describes := by
    refine (Describes.record KeyAction.identifier fun _ =>
      .last KeyAction.defaultBindings ?_).congr (fun _ => Iff.rfl) ?_
    · rintro _ ⟨⟩
      simp [eq_comm]
    · intro v
      rw [show write v = write v.identifier ++ write v.defaultBindings from rfl, toList_append]

instance : Sized Intercepts where
  Fits v :=
    Fits v.boundKeystrokes ∧ Fits v.globalKeystrokes ∧ Fits v.actions ∧ Fits v.overrideActions

instance : Exact Intercepts where
  describes := by
    refine (Describes.record Intercepts.boundKeystrokes fun _ =>
      .field Intercepts.globalKeystrokes fun _ => .field Intercepts.actions fun _ =>
      .last Intercepts.overrideActions ?_).congr (fun _ => Iff.rfl) ?_
    · rintro _ ⟨⟩
      simp [eq_comm, and_assoc]
    · intro v
      rw [show write v = write v.boundKeystrokes ++ write v.globalKeystrokes ++ write v.actions ++
        write v.overrideActions from rfl]
      simp only [toList_append, List.append_assoc]

/-- The number of a change. -/
def interceptNumber : Intercept → Nat
  | .setIntercepts _ => 0
  | .setVisible _ => 1

/-- The bytes behind the number of a change. -/
def interceptBody : Intercept → ByteArray
  | .setIntercepts a => write a
  | .setVisible a => write a

instance : Sized Intercept where
  Fits
    | .setIntercepts a => Fits a
    | .setVisible a => Fits a

instance : Exact Intercept where
  describes := by
    refine (Describes.choice (w := fun c => toList (interceptBody c)) (by decide) interceptNumber
      ?_ ?_).congr (fun _ => Iff.rfl) ?_
    · rintro (_ | _) <;> simp [interceptNumber]
    · intro n hn
      match n, hn with
      | 0, _ =>
        refine .alternative Intercept.setIntercepts ?_ (fun _ => Iff.rfl) fun _ => rfl
        rintro (_ | _) <;> simp [interceptNumber]
      | 1, _ =>
        refine .alternative Intercept.setVisible ?_ (fun _ => Iff.rfl) fun _ => rfl
        rintro (_ | _) <;> simp [interceptNumber]
    · intro c
      rw [← toList_writeNumber, ← toList_append]
      rcases c with _ | _ <;> rfl

instance : Sized RunProcess where
  Fits v := Fits v.executable ∧ Fits v.arguments ∧ Fits v.workingDirectory ∧ Fits v.environment

instance : Exact RunProcess where
  describes := by
    refine (Describes.record RunProcess.executable fun _ => .field RunProcess.arguments fun _ =>
      .field RunProcess.workingDirectory fun _ =>
      .last RunProcess.environment ?_).congr (fun _ => Iff.rfl) ?_
    · rintro _ ⟨⟩
      simp [eq_comm, and_assoc]
    · intro v
      rw [show write v = write v.executable ++ write v.arguments ++ write v.workingDirectory ++
        write v.environment from rfl]
      simp only [toList_append, List.append_assoc]

/-- The number of a request. -/
def requestNumber : Request → Nat
  | .insertText _ => 0
  | .setBuffer _ => 1
  | .intercept _ => 2
  | .runProcess _ => 3
  | .ping => 4

/-- The bytes behind the number of a request. -/
def requestBody : Request → ByteArray
  | .insertText a => write a
  | .setBuffer a => write a
  | .intercept a => write a
  | .runProcess a => write a
  | .ping => ByteArray.empty

instance : Sized Request where
  Fits
    | .insertText a => Fits a
    | .setBuffer a => Fits a
    | .intercept a => Fits a
    | .runProcess a => Fits a
    | .ping => True

instance : Exact Request where
  describes := by
    refine (Describes.choice (w := fun c => toList (requestBody c)) (by decide) requestNumber
      ?_ ?_).congr (fun _ => Iff.rfl) ?_
    · rintro (_ | _ | _ | _ | _) <;> simp [requestNumber]
    · intro n hn
      match n, hn with
      | 0, _ =>
        refine .alternative Request.insertText ?_ (fun _ => Iff.rfl) fun _ => rfl
        rintro (_ | _ | _ | _ | _) <;> simp [requestNumber]
      | 1, _ =>
        refine .alternative Request.setBuffer ?_ (fun _ => Iff.rfl) fun _ => rfl
        rintro (_ | _ | _ | _ | _) <;> simp [requestNumber]
      | 2, _ =>
        refine .alternative Request.intercept ?_ (fun _ => Iff.rfl) fun _ => rfl
        rintro (_ | _ | _ | _ | _) <;> simp [requestNumber]
      | 3, _ =>
        refine .alternative Request.runProcess ?_ (fun _ => Iff.rfl) fun _ => rfl
        rintro (_ | _ | _ | _ | _) <;> simp [requestNumber]
      | 4, _ =>
        refine .bare Request.ping ?_ trivial rfl
        rintro (_ | _ | _ | _ | _) <;> simp [requestNumber]
    · intro c
      rw [← toList_writeNumber, ← toList_append]
      rcases c with _ | _ | _ | _ | _ <;> rfl

/-! ## Messages and envelopes -/

instance : Sized RequestId where
  Fits v := Fits v.value

instance : Exact RequestId where
  describes := Describes.single RequestId.value (by rintro _ ⟨⟩; simp [eq_comm])

instance : Sized ProcessResult where
  Fits v := Fits v.stdout ∧ Fits v.stderr ∧ Fits v.exitCode

instance : Exact ProcessResult where
  describes := by
    refine (Describes.record ProcessResult.stdout fun _ => .field ProcessResult.stderr fun _ =>
      .last ProcessResult.exitCode ?_).congr (fun _ => Iff.rfl) ?_
    · rintro _ ⟨⟩
      simp [eq_comm, and_assoc]
    · intro v
      rw [show write v = write v.stdout ++ write v.stderr ++ write v.exitCode from rfl]
      simp only [toList_append, List.append_assoc]

/-- The number of an event. -/
def eventNumber : Event → Nat
  | .hook (.editBuffer _) => 0
  | .hook (.prompt _) => 1
  | .hook (.preExec _) => 2
  | .hook (.postExec _) => 3
  | .hook (.interceptedKey _) => 4
  | .processResult _ => 5
  | .pong => 6

/-- The bytes behind the number of an event. -/
def eventBody : Event → ByteArray
  | .hook (.editBuffer a) => write a
  | .hook (.prompt a) => write a
  | .hook (.preExec a) => write a
  | .hook (.postExec a) => write a
  | .hook (.interceptedKey a) => write a
  | .processResult a => write a
  | .pong => ByteArray.empty

instance : Sized Event where
  Fits
    | .hook (.editBuffer a) => Fits a
    | .hook (.prompt a) => Fits a
    | .hook (.preExec a) => Fits a
    | .hook (.postExec a) => Fits a
    | .hook (.interceptedKey a) => Fits a
    | .processResult a => Fits a
    | .pong => True

instance : Exact Event where
  describes := by
    refine (Describes.choice (w := fun c => toList (eventBody c)) (by decide) eventNumber
      ?_ ?_).congr (fun _ => Iff.rfl) ?_
    · rintro ((_ | _ | _ | _ | _) | _ | _) <;> simp [eventNumber]
    · intro n hn
      match n, hn with
      | 0, _ =>
        refine .alternative (fun a => Event.hook (.editBuffer a)) ?_ (fun _ => Iff.rfl) fun _ => rfl
        rintro ((_ | _ | _ | _ | _) | _ | _) <;> simp [eventNumber]
      | 1, _ =>
        refine .alternative (fun a => Event.hook (.prompt a)) ?_ (fun _ => Iff.rfl) fun _ => rfl
        rintro ((_ | _ | _ | _ | _) | _ | _) <;> simp [eventNumber]
      | 2, _ =>
        refine .alternative (fun a => Event.hook (.preExec a)) ?_ (fun _ => Iff.rfl) fun _ => rfl
        rintro ((_ | _ | _ | _ | _) | _ | _) <;> simp [eventNumber]
      | 3, _ =>
        refine .alternative (fun a => Event.hook (.postExec a)) ?_ (fun _ => Iff.rfl) fun _ => rfl
        rintro ((_ | _ | _ | _ | _) | _ | _) <;> simp [eventNumber]
      | 4, _ =>
        refine .alternative (fun a => Event.hook (.interceptedKey a)) ?_ (fun _ => Iff.rfl) fun _ => rfl
        rintro ((_ | _ | _ | _ | _) | _ | _) <;> simp [eventNumber]
      | 5, _ =>
        refine .alternative Event.processResult ?_ (fun _ => Iff.rfl) fun _ => rfl
        rintro ((_ | _ | _ | _ | _) | _ | _) <;> simp [eventNumber]
      | 6, _ =>
        refine .bare Event.pong ?_ trivial rfl
        rintro ((_ | _ | _ | _ | _) | _ | _) <;> simp [eventNumber]
    · intro c
      rw [← toList_writeNumber, ← toList_append]
      rcases c with (_ | _ | _ | _ | _) | _ | _ <;> rfl

instance : Sized InboundMessage where
  Fits v := Fits v.session ∧ Fits v.inReplyTo ∧ Fits v.event

instance : Exact InboundMessage where
  describes := by
    refine (Describes.record InboundMessage.session fun _ =>
      .field InboundMessage.inReplyTo fun _ =>
      .last InboundMessage.event ?_).congr (fun _ => Iff.rfl) ?_
    · rintro _ ⟨⟩
      simp [eq_comm, and_assoc]
    · intro v
      rw [show write v = write v.session ++ write v.inReplyTo ++ write v.event from rfl]
      simp only [toList_append, List.append_assoc]

instance : Sized OutboundMessage where
  Fits v := Fits v.id ∧ Fits v.session ∧ Fits v.request

instance : Exact OutboundMessage where
  describes := by
    refine (Describes.record OutboundMessage.id fun _ => .field OutboundMessage.session fun _ =>
      .last OutboundMessage.request ?_).congr (fun _ => Iff.rfl) ?_
    · rintro _ ⟨⟩
      simp [eq_comm, and_assoc]
    · intro v
      rw [show write v = write v.id ++ write v.session ++ write v.request from rfl]
      simp only [toList_append, List.append_assoc]

instance : Sized Envelope where
  Fits v := Fits v.version ∧ Fits v.compression ∧ Fits v.nonce ∧ Fits v.inner

instance : Exact Envelope where
  describes := by
    refine (Describes.record Envelope.version fun _ => .field Envelope.compression fun _ =>
      .field Envelope.nonce fun _ => .last Envelope.inner ?_).congr (fun _ => Iff.rfl) ?_
    · rintro _ ⟨⟩
      simp [eq_comm, and_assoc]
    · intro v
      rw [show write v = write v.version ++ write v.compression ++ write v.nonce ++ write v.inner
        from rfl]
      simp only [toList_append, List.append_assoc]

end SessionMux.Record
