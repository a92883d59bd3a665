/-!
# Addresses of hosts

The URL of a host names a scheme, an authority, which is a host with or without a port, and a path.
A URL without a scheme is an authority alone.

* `Address.ofUrl` reads a URL, or says what is wrong with it.
-/

namespace SessionMux

/-- What is wrong with the URL of a host. -/
inductive UrlFault where
  | empty
  | tooLong
  | badCharacter
  | badAuthority
  | badShape
  | schemeTooLong
  | noHost
  /-- The scheme tells no port, and no port is given. -/
  | unknownScheme
deriving DecidableEq

/-- The wording of a fault. -/
def UrlFault.text : UrlFault → String
  | .empty => "HTTP format error: empty string"
  | .tooLong => "HTTP format error: uri too long"
  | .badCharacter => "HTTP format error: invalid uri character"
  | .badAuthority => "HTTP format error: invalid authority"
  | .badShape => "HTTP format error: invalid format"
  | .schemeTooLong => "HTTP format error: scheme too long"
  | .noHost => "URL error: No host name in the URL"
  | .unknownScheme => "URL error: URL scheme not supported"

/-- Where to dial. -/
structure Address where
  host : String
  port : Nat
deriving DecidableEq

namespace Address

/-! ## Characters -/

/-- A character of a URL other than a percent sign. -/
def isUrlCharacter (c : Char) : Bool := c.isAlphanum || "!#$&'()*+,-./:;=?@[]_~".contains c

/-- A character of a scheme. -/
def isSchemeCharacter (c : Char) : Bool := c.isAlphanum || c == '+' || c == '-' || c == '.' || c == '~'

/-- A character of a path. -/
def isPathCharacter (c : Char) : Bool :=
  '!' ≤ c && c != '#' && c != '<' && c != '>' && c != '?' && c != '\x60'

/-- A character of the query behind a path. -/
def isQueryCharacter (c : Char) : Bool := '!' ≤ c && c != '"' && c != '#' && c != '<' && c != '>'

/-! ## Parts -/

/-- The most characters of a scheme. -/
def longestScheme : Nat := 64

/-- The most bytes of a URL. -/
def longestUrl : Nat := 65534

/-- The scheme of a URL and what follows its mark, if it has one. The mark alone is none. -/
def splitScheme (l : List Char) : Except UrlFault (Option (List Char) × List Char) :=
  let scheme := l.takeWhile isSchemeCharacter
  match l.drop scheme.length with
  | ':' :: '/' :: '/' :: rest =>
    if l.length ≤ 3 then .ok (none, l)
    else if longestScheme < scheme.length then .error .schemeTooLong
    else .ok (some scheme, rest)
  | _ => .ok (none, l)

/-- What has been seen of an authority. -/
structure AuthorityScan where
  /-- Colons since the last bracket or at sign. -/
  colons : Nat := 0
  opened : Bool := false
  closed : Bool := false
  /-- A percent sign outside of what may hold one. -/
  percent : Bool := false
  /-- The last character was an at sign. -/
  atSign : Bool := false

/-- The most colons in a row of parts. -/
def mostColons : Nat := 8

/-- Reads one character of an authority. -/
def AuthorityScan.read (s : AuthorityScan) (c : Char) : Except UrlFault AuthorityScan :=
  let s := { s with atSign := false }
  match c with
  | '%' => .ok { s with percent := true }
  | ':' => if mostColons ≤ s.colons then .error .badAuthority else .ok { s with colons := s.colons + 1 }
  | '[' => if s.percent || s.opened then .error .badAuthority else .ok { s with opened := true }
  | ']' =>
    if !s.opened || s.closed then .error .badAuthority
    else .ok { s with closed := true, colons := 0, percent := false }
  | '@' => .ok { s with colons := 0, percent := false, atSign := true }
  | c => if isUrlCharacter c then .ok s else .error .badCharacter

/-- A character behind the authority begins. -/
def endsAuthority (c : Char) : Bool := c == '/' || c == '?' || c == '#'

/-- The authority at the front of a text, and the rest. -/
def splitAuthority (l : List Char) : Except UrlFault (List Char × List Char) := do
  if l.isEmpty then throw .empty
  let authority := l.takeWhile (!endsAuthority ·)
  let s ← authority.foldlM AuthorityScan.read {}
  if s.opened != s.closed || 1 < s.colons || s.atSign || s.percent then throw .badAuthority
  return (authority, l.drop authority.length)

/-- The path, and the query behind it, consist of characters that may stand there. -/
def checkPath (l : List Char) : Except UrlFault Unit :=
  let l := l.takeWhile (· != '#')
  let path := l.takeWhile (· != '?')
  if path.all isPathCharacter && (l.drop (path.length + 1)).all isQueryCharacter then .ok ()
  else .error .badCharacter

/-- The scheme and the authority of a URL. -/
def split (s : String) : Except UrlFault (Option (List Char) × List Char) := do
  let l := s.toList
  if longestUrl < s.utf8ByteSize then throw .tooLong
  match l with
  | ['*'] => throw .noHost
  | '/' :: _ =>
    checkPath l
    throw .noHost
  | [_] =>
    let (authority, rest) ← splitAuthority l
    if !rest.isEmpty then throw .badCharacter
    return (none, authority)
  | _ =>
    let (scheme, rest) ← splitScheme l
    let (authority, path) ← splitAuthority rest
    match scheme with
    | none =>
      if !path.isEmpty then throw .badShape
      return (none, authority)
    | some scheme =>
      if authority.isEmpty then throw .badShape
      checkPath path
      return (some scheme, authority)

/-! ## Host and port -/

/-- A port: digits below 65536, with a plus before them or without. -/
def port? (l : List Char) : Option Nat :=
  let ds := match l with
    | '+' :: r => r
    | l => l
  let n := ds.foldl (fun n c => 10 * n + (c.toNat - '0'.toNat)) 0
  if ds.isEmpty || !ds.all Char.isDigit || 65536 ≤ n then none else some n

/-- The authority without the names of users before it. -/
def withoutUser (l : List Char) : List Char :=
  if l.contains '@' then (l.reverse.takeWhile (· != '@')).reverse else l

/-- What follows the last colon, if there is one. -/
def behindColon (l : List Char) : Option (List Char) :=
  if l.contains ':' then some (l.reverse.takeWhile (· != ':')).reverse else none

/-- The host of an authority: what stands in brackets, or all before the port. -/
def hostOf (l : List Char) : List Char :=
  match withoutUser l with
  | '[' :: rest => rest.takeWhile (· != ']')
  | l => l.takeWhile (· != ':')

/-- The port of a scheme that needs none to be given. -/
def usualPort? (scheme : Option (List Char)) : Option Nat :=
  match scheme.map String.ofList with
  | some "ws" => some 80
  | some "wss" => some 443
  | _ => none

/-- Reads the URL of a host. -/
def ofUrl (url : String) : Except UrlFault Address := do
  let (scheme, authority) ← split url
  match (behindColon (withoutUser authority)).bind port? <|> usualPort? scheme with
  | some port => return ⟨String.ofList (hostOf authority), port⟩
  | none => throw .unknownScheme

end Address

end SessionMux
