import SessionMux.MuxFault
import SessionMux.Transport.Address

/-!
# Connecting

A host is dialled until it answers, up to a number of attempts in all. Only faults that may pass are
worth another attempt, and there is a pause before it.

* `connectWithRetry` goes through the outcomes of the attempts, and tells what it did.
* `dial` is one attempt.
-/

namespace SessionMux

/-- What is done to connect. -/
inductive ConnectAct where
  | dial
  | pause (milliseconds : Nat)
deriving DecidableEq

/-- Attempts to connect from the one of a number on; `outcome` is what each attempt comes to, the
first one at zero. -/
def connectFrom {α : Type} (attempts : UInt32) (delay : Nat) (outcome : Nat → Except MuxFault α)
    (attempt : UInt32) : Except MuxFault α × List ConnectAct :=
  match outcome (attempt.toNat - 1) with
  | .ok a => (.ok a, [.dial])
  | .error f =>
    if f.isRetryable then
      if attempt < attempts then
        let (r, acts) := connectFrom attempts delay outcome (attempt + 1)
        (r, .dial :: .pause delay :: acts)
      else (.error f, [.dial])
    else (.error f, [.dial])
termination_by attempts.toNat - attempt.toNat
decreasing_by
  rename_i h
  have h' : attempt.toNat < attempts.toNat := UInt32.lt_iff_toNat_lt.1 h
  have hb := attempts.toNat_lt
  rw [UInt32.toNat_add]
  simp
  omega

/-- Attempts to connect, up to a number of attempts in all, but at least once. -/
def connectWithRetry {α : Type} (attempts : UInt32) (delay : Nat)
    (outcome : Nat → Except MuxFault α) : Except MuxFault α × List ConnectAct :=
  connectFrom attempts delay outcome 1

/-- One attempt to reach the host of a URL. A fault is reported with the URL. -/
def dial {α : Type} (network : Address → Except IoFault α) (url : String) : Except MuxFault α :=
  match Address.ofUrl url with
  | .error f => .error (.connection (url ++ ": " ++ f.text))
  | .ok address =>
    match network address with
    | .ok a => .ok a
    | .error e => .error (.connection (url ++ ": IO error: " ++ e.text))

end SessionMux
