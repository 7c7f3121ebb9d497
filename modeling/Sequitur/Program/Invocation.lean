import Sequitur.Program.Flag
import Sequitur.Settings.Basic

/-!
# Sequitur.Program.Invocation

What a command line asks for: a job, flags, and arguments of the job.

The job is named by the first argument that is neither a flag nor the value
of one.  Without a name it is a session, whose argument is a file of
sequents.
-/

namespace Sequitur

/-- What the program can do. -/
inductive Job where
  /-- Prove sequents in a session. -/
  | session
  /-- Apply rules to a sequent and draw the derivation. -/
  | render
  /-- Tell whether sequents are valid. -/
  | check
  /-- Print the settings in effect. -/
  | config
deriving DecidableEq

namespace Job

/-- The name of a job on the command line. -/
def name? : Job → Option String
  | session => none
  | render => some "render"
  | check => some "check"
  | config => some "config"

/-- The jobs with a name. -/
def named : List Job := [render, check, config]

/-- The job with a name. -/
def ofName? (t : Text) : Option Job := named.find? fun k => k.name?.map Text.ofString = some t

/-- The flags of a job. -/
def flags : Job → List Flag
  | session => Flag.shared ++ [.sequent, .help]
  | _ => Flag.shared ++ [.help]

end Job

/-- Why a command line cannot be followed. -/
inductive InvocationError where
  | flag (e : FlagError)
  /-- There are more arguments than one. -/
  | tooMany (received : Nat)
  /-- There is no argument. -/
  | tooFew
  /-- There is an argument where none can be. -/
  | unexpected (arg : Text)

/-- The message of an error. -/
def InvocationError.message : InvocationError → String
  | flag e => e.message
  | tooMany n => "accepts at most 1 arg(s), received " ++ toString n
  | tooFew => "requires at least 1 arg(s), only received 0"
  | unexpected arg => "unknown command " ++ arg.quoted ++ " for \"prove config\""

/-- A command line that has been read. -/
structure Invocation where
  job : Job
  flags : FlagValues
  args : List Text

namespace Invocation

/-! ## The job -/

/-- Whether an argument looks like a flag. -/
def looksLikeFlag : Text → Bool
  | .char '-' :: _ => true
  | _ => false

/-- Whether an argument is a flag whose value is the next one.  A flag that
is not known is taken for one. -/
def takesNext (t : Text) : Bool :=
  let known := Flag.shared ++ [.sequent]
  if t.contains (.char '=') then false
  else
    match t with
    | .char '-' :: .char '-' :: name => !((Flag.ofName? known name).map Flag.isSwitch).getD false
    | [.char '-', g] => g.size = 1 && !((Flag.ofLetter? known g).map Flag.isSwitch).getD false
    | _ => false

/-- Two dashes, which end the flags. -/
def dashes : Text := Text.ofString "--"

/-- The first argument that is neither a flag nor the value of one.  A flag
with the last argument as its value ends the search. -/
def firstWord? : List Text → Option Text
  | [] => none
  | a :: rest =>
    if a = dashes then none
    else if takesNext a then
      match rest with
      | [] => none
      | _ :: rest' => if rest'.isEmpty then none else firstWord? rest'
    else if a.isEmpty || looksLikeFlag a then firstWord? rest
    else some a

/-- Removes the first argument that is a word and no value of a flag. -/
def without (word : Text) : List Text → List Text
  | [] => []
  | a :: rest =>
    if a = dashes then a :: rest
    else if takesNext a then
      match rest with
      | [] => [a]
      | v :: rest' => a :: v :: without word rest'
    else if a = word then rest
    else a :: without word rest

/-- The job of a command line, and the arguments without its name. -/
def jobOf (args : List Text) : Job × List Text :=
  match firstWord? args with
  | none => (.session, args)
  | some w =>
    match Job.ofName? w with
    | none => (.session, args)
    | some k => (k, without w args)

/-! ## Reading -/

/-- Reads a command line up to the number of its arguments. -/
def read (args : List Text) : Except FlagError Invocation := do
  let (job, rest) := jobOf args
  let (flags, args) ← FlagValues.read job.flags {} rest
  return { job, flags, args }

/-- Checks the number of arguments. -/
def checkCount (i : Invocation) : Except InvocationError Unit :=
  match i.job, i.args with
  | .session, _ :: _ :: _ => .error (.tooMany i.args.length)
  | .render, [] => .error .tooFew
  | .check, [] => .error .tooFew
  | .config, a :: _ => .error (.unexpected a)
  | _, _ => .ok ()

end Invocation

/-- Settings with the flags of a command line put in their place. -/
def FlagValues.override (fs : FlagValues) (s : Settings) : SettingsDraft :=
  let d := s.toDraft
  { d with
    unicode := fs.unicode.getD d.unicode
    negation := fs.negation.getD d.negation
    highlight := fs.color.getD d.highlight
    level := fs.level.getD d.level
    file := fs.file.getD d.file }

end Sequitur
