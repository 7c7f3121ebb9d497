import Sequitur.Program.Duration

/-!
# Sequitur.Program.Flag

The flags of a command line.  A flag has a name after two dashes, and some
have a letter after one dash.  Its value follows an equals sign or is the
next argument.  A switch has the value `true` unless another one follows an
equals sign.  Flags and other arguments may be mixed, and two dashes alone
end the flags.
-/

namespace Sequitur

/-- The flags. -/
inductive Flag where
  | config
  | unicode
  | negation
  | color
  | logLevel
  | logFile
  | timeout
  | sequent
  | help
deriving DecidableEq

namespace Flag

/-- The flags of every command. -/
def shared : List Flag := [config, unicode, negation, color, logLevel, logFile, timeout]

/-- The name of a flag. -/
def name : Flag → String
  | config => "config"
  | unicode => "unicode"
  | negation => "negation"
  | color => "color"
  | logLevel => "log-level"
  | logFile => "log-file"
  | timeout => "timeout"
  | sequent => "sequent"
  | help => "help"

/-- The letter of a flag. -/
def letter? : Flag → Option Char
  | sequent => some 's'
  | help => some 'h'
  | _ => none

/-- Whether a flag needs no value. -/
def isSwitch : Flag → Bool
  | unicode => true
  | negation => true
  | help => true
  | _ => false

/-- The flag with a name, among those known. -/
def ofName? (known : List Flag) (t : Text) : Option Flag :=
  known.find? fun f => Text.ofString f.name = t

/-- The flag with a letter, among those known. -/
def ofLetter? (known : List Flag) (g : Glyph) : Option Flag :=
  known.find? fun f => f.letter?.map Glyph.char = some g

end Flag

/-! ## Values -/

/-- The values that flags have been given. -/
structure FlagValues where
  /-- The file with the settings; empty for the usual one. -/
  config : Text := []
  unicode : Option Bool := none
  negation : Option Bool := none
  color : Option Text := none
  level : Option Text := none
  file : Option Text := none
  /-- The longest time for a check, in nanoseconds. -/
  timeout : Int := 10000000000
  /-- The sequents to prove, in order. -/
  sequents : List Text := []
  help : Bool := false

/-- Why flags cannot be read. -/
inductive FlagError where
  /-- The name after two dashes has another form. -/
  | malformed (arg : Text)
  | unknown (name : Text)
  /-- No flag has the first of these letters. -/
  | unknownLetter (letters : Text)
  /-- The value is missing. -/
  | missing (name : Text)
  /-- The value of the flag with the last of these letters is missing. -/
  | missingLetter (letters : Text)
  /-- The value of a switch is no boolean. -/
  | noBool (flag : Flag) (value : Text)
  /-- The value of a flag is no duration. -/
  | noDuration (flag : Flag) (value : Text) (fault : DurationFault)

namespace FlagError

/-- The first letter of a group between single quotes.  A character beyond
ASCII shows as the one that its first byte stands for. -/
def firstLetter : Text → String
  | [] => ""
  | .stray b :: _ => if b < 0xC0 then "'Â'" else "'Ã'"
  | .char c :: _ =>
    if 0x80 ≤ c.toNat then "'Ã'"
    else if c = '\x27' then "'\\''"
    else if c = '"' then "'\"'"
    else "'" ++ String.ofList (Quoted.char c) ++ "'"

/-- A flag with its dashes, its letter first. -/
def dashed (flag : Flag) : String :=
  match flag.letter? with
  | none => "--" ++ flag.name
  | some c => "-" ++ c.toString ++ ", --" ++ flag.name

/-- The start of the message for a value that does not fit. -/
def invalid (flag : Flag) (value : Text) : String :=
  "invalid argument " ++ value.quoted ++ " for \"" ++ dashed flag ++ "\" flag: "

/-- The message of an error. -/
def message : FlagError → String
  | malformed arg => "bad flag syntax: " ++ arg.shown
  | unknown name => "unknown flag: --" ++ name.shown
  | unknownLetter letters =>
    "unknown shorthand flag: " ++ firstLetter letters ++ " in -" ++ letters.shown
  | missing name => "flag needs an argument: --" ++ name.shown
  | missingLetter letters =>
    "flag needs an argument: " ++ firstLetter letters ++ " in -" ++ letters.shown
  | noBool flag value =>
    invalid flag value ++ "strconv.ParseBool: parsing " ++ value.quoted ++ ": invalid syntax"
  | noDuration flag value fault => invalid flag value ++ Duration.message value fault

end FlagError

/-- The boolean that a text stands for. -/
def readBool? (t : Text) : Option Bool :=
  if t ∈ ["1", "t", "T", "true", "TRUE", "True"].map Text.ofString then some true
  else if t ∈ ["0", "f", "F", "false", "FALSE", "False"].map Text.ofString then some false
  else none

namespace FlagValues

/-- Gives a switch a value. -/
def setBool (f : Flag) (v : Text) (set : Bool → FlagValues) : Except FlagError FlagValues :=
  match readBool? v with
  | none => .error (.noBool f v)
  | some b => .ok (set b)

/-- Gives a flag a value. -/
def set (fs : FlagValues) (f : Flag) (v : Text) : Except FlagError FlagValues :=
  match f with
  | .config => .ok { fs with config := v }
  | .unicode => setBool f v fun b => { fs with unicode := some b }
  | .negation => setBool f v fun b => { fs with negation := some b }
  | .color => .ok { fs with color := some v }
  | .logLevel => .ok { fs with level := some v }
  | .logFile => .ok { fs with file := some v }
  | .timeout =>
    match Duration.read v with
    | .error e => .error (.noDuration f v e)
    | .ok n => .ok { fs with timeout := n }
  | .sequent => .ok { fs with sequents := fs.sequents ++ [v] }
  | .help => setBool f v fun b => { fs with help := b }

/-- The value of a switch that is given none. -/
def yes : Text := Text.ofString "true"

/-! ## Reading -/

/-- The name and the value of a flag that are separated by an equals sign. -/
def cut : Text → Text × Option Text
  | [] => ([], none)
  | g :: rest =>
    if g = .char '=' then ([], some rest)
    else
      let (name, value) := cut rest
      (g :: name, value)

/-- Reads the letters of flags after a dash, and tells which flag has its
value in the next argument.  A letter with a value ends the group: the
letters after it are its value, or those after an equals sign.  A group that
starts with `test.` is ignored. -/
def letters (known : List Flag) (fs : FlagValues) :
    Text → Except FlagError (FlagValues × Option Flag)
  | [] => .ok (fs, none)
  | g :: more =>
    if (Text.ofString "test.").isPrefixOf (g :: more) then .ok (fs, none)
    else
      match Flag.ofLetter? known g with
      | none => .error (.unknownLetter (g :: more))
      | some f =>
        if more.head? = some (.char '=') && 2 ≤ more.length then
          (fs.set f more.tail).map (·, none)
        else if f.isSwitch then do
          let fs ← fs.set f yes
          letters known fs more
        else if more.isEmpty then .ok (fs, some f)
        else (fs.set f more).map (·, none)

/-- The kinds of arguments. -/
inductive Argument where
  /-- An argument that is no flag. -/
  | operand
  /-- The end of the flags. -/
  | dashes
  /-- What follows two dashes. -/
  | long (text : Text)
  /-- What follows one dash. -/
  | short (text : Text)

/-- The kind of an argument. -/
def argument : Text → Argument
  | .char '-' :: .char '-' :: [] => .dashes
  | .char '-' :: .char '-' :: name => .long name
  | .char '-' :: g :: more => .short (g :: more)
  | _ => .operand

/-- The flag that follows two dashes, and its value if it has one there. -/
def long (known : List Flag) (text : Text) : Except FlagError (Flag × Option Text) :=
  match text with
  | .char '-' :: _ => .error (.malformed (Text.ofString "--" ++ text))
  | .char '=' :: _ => .error (.malformed (Text.ofString "--" ++ text))
  | _ =>
    let (name, value) := cut text
    match Flag.ofName? known name with
    | none => .error (.unknown name)
    | some f => .ok (f, if f.isSwitch then some (value.getD yes) else value)

/-- Reads flags, and collects the other arguments. -/
def read (known : List Flag) (fs : FlagValues) :
    List Text → Except FlagError (FlagValues × List Text)
  | [] => .ok (fs, [])
  | a :: rest =>
    match argument a with
    | .operand => do
      let (fs, args) ← read known fs rest
      return (fs, a :: args)
    | .dashes => .ok (fs, rest)
    | .long text =>
      match long known text with
      | .error e => .error e
      | .ok (f, some v) =>
        match fs.set f v with
        | .error e => .error e
        | .ok fs => read known fs rest
      | .ok (f, none) =>
        match rest with
        | [] => .error (.missing (Text.ofString f.name))
        | v :: rest' =>
          match fs.set f v with
          | .error e => .error e
          | .ok fs => read known fs rest'
    | .short text =>
      match letters known fs text with
      | .error e => .error e
      | .ok (fs, none) => read known fs rest
      | .ok (fs, some f) =>
        match rest with
        | [] => .error (.missingLetter (text.drop (text.length - 1)))
        | v :: rest' =>
          match fs.set f v with
          | .error e => .error e
          | .ok fs => read known fs rest'

end FlagValues

end Sequitur
