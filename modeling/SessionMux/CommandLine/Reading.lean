/-!
# Reading a command line

A command line is read word by word after a form: the options of a command, its positional words and
its subcommands. An option that takes a value may have it attached or in the next word. Two dashes
alone end the options. The last positional may take all words from its first one on, whatever they
look like; then words that are no option of the command count for it.

* `Form.read` reads the words up to a subcommand or the end.
* `Given` is what they gave.
-/

namespace SessionMux.CommandLine

/-- Why a command line is not carried out. -/
inductive UsageFault where
  /-- Help was asked for. -/
  | help
  /-- The version was asked for. -/
  | version
  /-- Nothing was given where something must be. -/
  | nothingGiven
  | noSubcommand
  | unknownSubcommand
  | unknownArgument
  /-- An option got a value that it does not take. -/
  | surplusValue
  /-- An option lacks its value, or the value may not be empty. -/
  | missingValue
  /-- The value of an option cannot be read. -/
  | badValue
  /-- An option that counts once was given again. -/
  | repeated
  | missingArgument
deriving DecidableEq

/-- The exit code of a program that is not carried out. -/
def UsageFault.exitCode : UsageFault → Nat
  | .help | .version => 0
  | _ => 2

/-- The wording of a fault. -/
def UsageFault.text : UsageFault → String
  | .help => "help was asked for"
  | .version => "the version was asked for"
  | .nothingGiven => "nothing was given"
  | .noSubcommand => "a subcommand is required but one was not provided"
  | .unknownSubcommand => "unrecognized subcommand"
  | .unknownArgument => "unexpected argument found"
  | .surplusValue => "unexpected value for an option that takes none"
  | .missingValue => "a value is required for an option but none was supplied"
  | .badValue => "invalid value for an option"
  | .repeated => "an option cannot be used multiple times"
  | .missingArgument => "a required argument was not provided"

/-- What an option does. -/
inductive OptionKind where
  /-- Takes a value, which must pass a check. -/
  | value (check : String → Except UsageFault Unit)
  | flag
  /-- May be given again, and counts how often. -/
  | count
  | help
  | version

/-- An option of a command. -/
structure OptionForm where
  long : String
  short : Option Char := none
  kind : OptionKind
  required : Bool := false

/-- A word of a command that is known by its position. -/
structure PositionalForm where
  name : String
  required : Bool := true
  /-- Takes all words from its first one on. -/
  takesRest : Bool := false

/-- The form of a command. -/
structure Form where
  options : List OptionForm
  positionals : List PositionalForm := []
  subcommands : List String := []

/-- What the words of a command gave, by the names of options and positionals. -/
structure Given where
  values : List (String × String) := []
  flags : List String := []
  counts : List (String × Nat) := []
  rest : List String := []

namespace Given

/-- The value of an option or a positional. -/
def value? (g : Given) (name : String) : Option String := g.values.lookup name

/-- How often an option was given, if it was. -/
def count? (g : Given) (name : String) : Option Nat := g.counts.lookup name

/-- Nothing was given. -/
def isEmpty (g : Given) : Bool :=
  g.values.isEmpty && g.flags.isEmpty && g.counts.isEmpty && g.rest.isEmpty

end Given

/-- The most that a count comes to. -/
def highestCount : Nat := 255

/-- How far a command line has been read. -/
structure Progress where
  given : Given := {}
  /-- An option whose value has not been stored: it still lacks it, or it has just got it. -/
  held : Option (OptionForm × Option String) := none
  /-- The number of positionals that have their word. -/
  position : Nat := 0
  /-- All words that follow are positional. -/
  trailing : Bool := false

/-- What a word does. -/
inductive Step where
  | next (p : Progress)
  /-- The word is a value, or a positional. -/
  | plain
  | subcommand (name : String)

namespace Progress

/-- An option lacks its value, and the next word may be it. -/
def isAwaiting (p : Progress) : Bool :=
  match p.held with
  | some (_, none) => true
  | _ => false

/-- Stores the value of an option. -/
def store (o : OptionForm) (v : String) (p : Progress) : Except UsageFault Progress := do
  if (p.given.value? o.long).isSome then throw .repeated
  if let .value check := o.kind then check v
  return { p with given := { p.given with values := p.given.values ++ [(o.long, v)] } }

/-- Stores the value that is held; an option that still lacks it is a fault. -/
def settle (p : Progress) : Except UsageFault Progress :=
  match p.held with
  | none => .ok p
  | some (_, none) => .error .missingValue
  | some (o, some v) => { p with held := none }.store o v

/-- An option that takes a value, with the value if it is attached. -/
def take (o : OptionForm) (attached : Option String) (p : Progress) : Except UsageFault Progress := do
  let p ← p.settle
  match attached with
  | some v => p.store o v
  | none => return { p with held := some (o, none) }

/-- An option that takes no value. -/
def mark (o : OptionForm) (p : Progress) : Except UsageFault Progress := do
  let p ← p.settle
  match o.kind with
  | .value _ => return p
  | .flag =>
    if p.given.flags.contains o.long then throw .repeated
    return { p with given := { p.given with flags := o.long :: p.given.flags } }
  | .count =>
    let n := min ((p.given.count? o.long).getD 0 + 1) highestCount
    let others := p.given.counts.filter (·.1 != o.long)
    return { p with given := { p.given with counts := (o.long, n) :: others } }
  | .help => throw .help
  | .version => throw .version

end Progress

/-- The option takes a value. -/
def OptionForm.takesValue (o : OptionForm) : Bool :=
  match o.kind with
  | .value _ => true
  | _ => false

namespace Form

/-- The option of a long name. -/
def long? (f : Form) (name : String) : Option OptionForm := f.options.find? (·.long == name)

/-- The option of a short name. -/
def short? (f : Form) (c : Char) : Option OptionForm := f.options.find? (·.short == some c)

/-- The next positional takes all that follows. -/
def atRest (f : Form) (p : Progress) : Bool :=
  (f.positionals[p.position]?).any PositionalForm.takesRest

/-- The parts before and behind the first sign of equality. -/
def splitValue (l : List Char) : String × Option String :=
  (String.ofList (l.takeWhile (· != '=')),
    match l.dropWhile (· != '=') with
    | [] => none
    | _ :: v => some (String.ofList v))

/-- A word that begins with two dashes, without them. -/
def readLong (f : Form) (p : Progress) (l : List Char) : Except UsageFault Step := do
  let (name, attached) := splitValue l
  match f.long? name with
  | some o =>
    if o.takesValue then return .next (← p.take o attached)
    else if attached.isSome then throw .surplusValue
    else return .next (← p.mark o)
  | none => if f.atRest p then return .plain else throw .unknownArgument

/-- The short names in a word; the first that takes a value has the rest of the word for it. -/
def readShorts (f : Form) : List Char → Progress → Except UsageFault Progress
  | [], p => .ok p
  | c :: l, p =>
    match f.short? c with
    | none => .error .unknownArgument
    | some o =>
      if o.takesValue then
        match l with
        | [] => p.take o none
        | '=' :: v => p.take o (some (String.ofList v))
        | v => p.take o (some (String.ofList v))
      else
        match p.mark o with
        | .ok p => readShorts f l p
        | .error e => .error e

/-- A word that begins with one dash, without it. -/
def readShort (f : Form) (p : Progress) (l : List Char) : Except UsageFault Step :=
  if f.atRest p && l.any (fun c => (f.short? c).isNone) then .ok .plain
  else (f.readShorts l p).map .next

/-- A word that is no option: the value that is awaited, or the next positional. -/
def readPlain (f : Form) (p : Progress) (word : String) : Except UsageFault Progress := do
  if p.isAwaiting && !p.trailing then
    return { p with held := p.held.map fun h => (h.1, some word) }
  match f.positionals[p.position]? with
  | some form =>
    let p ← p.settle
    if form.takesRest then
      return { p with trailing := true, given := { p.given with rest := p.given.rest ++ [word] } }
    else
      let given := { p.given with values := p.given.values ++ [(form.name, word)] }
      return { p with given, position := p.position + 1 }
  | none =>
    if f.subcommands.isEmpty || (p.trailing && f.subcommands.contains word) then
      throw .unknownArgument
    else throw .unknownSubcommand

/-- What the next word does. -/
def step (f : Form) (p : Progress) (word : String) : Except UsageFault Step :=
  if p.trailing then .ok .plain
  else if f.subcommands.contains word && !p.isAwaiting then .ok (.subcommand word)
  else match word.toList with
    | ['-', '-'] => .ok (.next { p with trailing := true })
    | '-' :: '-' :: l => f.readLong p l
    | '-' :: c :: l => f.readShort p (c :: l)
    | _ => .ok .plain

/-- Reads words up to a subcommand or the end: how far it came, and the subcommand with the words
behind it. -/
def read (f : Form) : List String → Progress →
    Except UsageFault (Progress × Option (String × List String))
  | [], p => .ok (p, none)
  | word :: words, p => do
    match ← f.step p word with
    | .next p => read f words p
    | .plain => read f words (← f.readPlain p word)
    | .subcommand name => return (p, some (name, words))

/-- All that must be given has been given. -/
def isComplete (f : Form) (g : Given) : Bool :=
  f.options.all (fun o => !o.required || (g.value? o.long).isSome) &&
    f.positionals.all fun a => !a.required || (g.value? a.name).isSome

end Form

end SessionMux.CommandLine
