import SessionMux.SystemFault
import SessionMux.Transport.Address

/-!
# A machine without a network

Where there is no route to any network, no address can be reached, not even those of the machine
itself, and no name other than its own can be looked up.
-/

namespace SessionMux

/-- What is said where nobody can be asked for the address of a name. -/
def lookupFailed : IoFault :=
  .said .other "failed to lookup address information: Temporary failure in name resolution"

/-- The host is given by its address, or is the machine itself. -/
def Address.isLocalOrNumeric (a : Address) : Bool :=
  a.host == "localhost" || a.host.contains ':' ||
    (!a.host.isEmpty && a.host.toList.all fun c => c.isDigit || c == '.')

/-- What dialling comes to without a network. -/
def isolated (a : Address) : Except IoFault Empty :=
  .error (if a.isLocalOrNumeric then .system .networkUnreachable else lookupFailed)

end SessionMux
