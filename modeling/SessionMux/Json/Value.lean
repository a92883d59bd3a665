/-!
# JSON values and their texts

A value is written on one line with nothing between its parts, or spread over lines, two blanks
further in for each level. Objects keep the order of their fields.

Inside a text, quotes, backslashes and control characters are escaped and all else stands for
itself, so that no written value holds the end of a line.
-/

namespace SessionMux.Json

/-- A JSON value whose numbers are integers. -/
inductive Value where
  | null
  | boolean (b : Bool)
  | integer (n : Int)
  | string (s : String)
  | array (items : List Value)
  | object (fields : List (String × Value))

/-- The value, or null where there is none. -/
def Value.ofOption {α : Type} (f : α → Value) : Option α → Value
  | none => .null
  | some a => f a

/-! ## Texts -/

/-- A digit of base 16 below 16. -/
def hexDigit (n : Nat) : Char := Nat.digitChar n

/-- A character inside a text. -/
def escape (c : Char) : List Char :=
  match c with
  | '"' => ['\\', '"']
  | '\\' => ['\\', '\\']
  | '\x08' => ['\\', 'b']
  | '\x0c' => ['\\', 'f']
  | '\n' => ['\\', 'n']
  | '\r' => ['\\', 'r']
  | '\t' => ['\\', 't']
  | c =>
    if c < ' ' then ['\\', 'u', '0', '0', hexDigit (c.toNat / 16), hexDigit (c.toNat % 16)]
    else [c]

/-- A text with its quotes. -/
def quote (s : String) : List Char := '"' :: s.toList.flatMap escape ++ ['"']

/-- An integer in decimal digits, with a sign if it is negative. -/
def decimal : Int → List Char
  | .ofNat n => Nat.toDigits 10 n
  | .negSucc n => '-' :: Nat.toDigits 10 (n + 1)

/-! ## On one line -/

mutual

/-- A value on one line. -/
def Value.inline : Value → List Char
  | .null => ['n', 'u', 'l', 'l']
  | .boolean true => ['t', 'r', 'u', 'e']
  | .boolean false => ['f', 'a', 'l', 's', 'e']
  | .integer n => decimal n
  | .string s => quote s
  | .array items => '[' :: inlineItems items ++ [']']
  | .object fields => '\x7b' :: inlineFields fields ++ ['\x7d']

/-- Items with commas between them. -/
def inlineItems : List Value → List Char
  | [] => []
  | [v] => v.inline
  | v :: rest => v.inline ++ ',' :: inlineItems rest

/-- Fields with commas between them. -/
def inlineFields : List (String × Value) → List Char
  | [] => []
  | [(name, v)] => quote name ++ ':' :: v.inline
  | (name, v) :: rest => quote name ++ ':' :: v.inline ++ ',' :: inlineFields rest

end

/-! ## Over several lines -/

/-- The start of a line at a level. -/
def newLine (level : Nat) : List Char := '\n' :: List.replicate (2 * level) ' '

mutual

/-- A value over several lines, as a part at a level. -/
def Value.spread (level : Nat) : Value → List Char
  | .array [] => ['[', ']']
  | .array items => '[' :: spreadItems (level + 1) items ++ newLine level ++ [']']
  | .object [] => ['\x7b', '\x7d']
  | .object fields => '\x7b' :: spreadFields (level + 1) fields ++ newLine level ++ ['\x7d']
  | .null => ['n', 'u', 'l', 'l']
  | .boolean true => ['t', 'r', 'u', 'e']
  | .boolean false => ['f', 'a', 'l', 's', 'e']
  | .integer n => decimal n
  | .string s => quote s

/-- Items, each on a line of its own. -/
def spreadItems (level : Nat) : List Value → List Char
  | [] => []
  | [v] => newLine level ++ v.spread level
  | v :: rest => newLine level ++ v.spread level ++ ',' :: spreadItems level rest

/-- Fields, each on a line of its own. -/
def spreadFields (level : Nat) : List (String × Value) → List Char
  | [] => []
  | [(name, v)] => newLine level ++ quote name ++ ':' :: ' ' :: v.spread level
  | (name, v) :: rest =>
    newLine level ++ quote name ++ ':' :: ' ' :: v.spread level ++ ',' :: spreadFields level rest

end

/-- The text of a value on one line. -/
def Value.line (v : Value) : String := String.ofList v.inline

/-- The text of a value over several lines. -/
def Value.pages (v : Value) : String := String.ofList (v.spread 0)

end SessionMux.Json
