import Sequitur.Settings.Reader
import Sequitur.Settings.Printer
import Sequitur.Session.Transcript
import Sequitur.Session.SequentFile
import Sequitur.Program.Disk
import Sequitur.Program.Invocation
import Sequitur.Program.Rendering

/-!
# Sequitur.Program.Run

The program as a whole.  It reads a command line, then its settings, and
does the job.  What it writes and the code it ends with are its result; a
failure is written last, and its code is 1.

Files and the standard input are reached through a `Host`, so the program
runs on the files of the machine and on a `Disk` alike.
-/

namespace Sequitur

/-- What the program needs from outside. -/
structure Host (m : Type → Type) where
  /-- The directory of the user's settings, if there is one. -/
  settingsDirectory : Option Text
  /-- The standard input. -/
  input : m Text
  /-- Reads a file. -/
  read : Text → m (Except FileError Text)
  /-- Appends to a file, which is created if it does not exist. -/
  append : Text → String → m (Except FileError Unit)

/-- The files of a disk, with a standard input. -/
def Disk.host (settingsDirectory : Option Text) (input : Text) : Host (StateM Disk) where
  settingsDirectory := settingsDirectory
  input := pure input
  read path := do return (← get).read path
  append path more := do
    match (← get).append path (Text.ofString more) with
    | .error e => return .error e
    | .ok d => set d; return .ok ()

/-! ## Failures -/

/-- Why the program fails. -/
inductive ProgramError where
  | invocation (e : InvocationError)
  /-- The file of the settings cannot be read. -/
  | unreadSettings (e : FileError)
  /-- The settings in a file are none. -/
  | settingsFile (path : Text) (e : SettingsError)
  /-- The settings on the command line are none. -/
  | settings (fault : SettingsFault)
  /-- Both a file and sequents are given. -/
  | bothSources
  /-- The sequent with a number is none. -/
  | sequent (number : Nat) (e : SequentError)
  /-- The file of sequents cannot be opened. -/
  | unopenedSequents (e : FileError)
  /-- The file of sequents cannot be read. -/
  | unreadSequents (path : Text) (e : FileError)
  /-- The sequents of a file are none. -/
  | sequentFile (path : Text) (e : SequentFileError)
  /-- The log file cannot be opened. -/
  | unopenedLog (e : FileError)
  /-- There is no sequent to prove. -/
  | nothing
  /-- The session stopped before its input did. -/
  | session (e : TranscriptError)
  /-- The sequent to derive is none. -/
  | goal (e : SequentError)
  /-- A request failed. -/
  | rule (failure : RenderingFailure)
  /-- A text to check is no sequent. -/
  | question (text : Text) (e : SequentError)
  /-- The check of a sequent, as it is printed, was given up. -/
  | stopped (question : String) (why : Interruption)

/-- The message of a failure. -/
def ProgramError.message : ProgramError → String
  | invocation e => e.message
  | unreadSettings e => "could not read config: " ++ e.message
  | settingsFile path e => path.shown ++ ": " ++ e.message
  | settings fault => fault.message
  | bothSources => "a file and --sequent cannot be both given"
  | sequent n e => "sequent #" ++ toString n ++ ": " ++ e.message
  | unopenedSequents e => "could not open sequents: " ++ e.message
  | unreadSequents path e => path.shown ++ ": " ++ unreadableMessage e.message
  | sequentFile path e => path.shown ++ ": " ++ e.message
  | unopenedLog e => Logger.unopenedMessage e.message
  | nothing => Session.nothingMessage
  | session e => e.message
  | goal e => e.message
  | rule failure => failure.message
  | question t e => t.quoted ++ ": " ++ e.message
  | stopped q why => q ++ ": " ++ why.message

/-- What a job comes to: what it writes, what it logs, and why it fails. -/
structure JobResult where
  output : String := ""
  records : List LogRecord := []
  failure : Option ProgramError := none

/-- What the program comes to. -/
structure ProgramResult where
  code : Nat := 0
  output : String := ""
  errors : String := ""
deriving DecidableEq

namespace Program

/-- A failure as it is written. -/
def complaint (e : ProgramError) : String := "prove: " ++ e.message ++ "\n"

/-- The result of a program that fails at once. -/
def failed (e : ProgramError) : ProgramResult := { code := 1, errors := complaint e }

/-- The result of a job, given what it writes of its log. -/
def finished (r : JobResult) (logged : String) : ProgramResult :=
  match r.failure with
  | none => { output := r.output, errors := logged }
  | some e => { code := 1, output := r.output, errors := logged ++ complaint e }

/-- How to use the program. -/
def help : String :=
  "Usage:\n" ++
  "  prove [file] [flags]\n" ++
  "  prove render <sequent> [rule...] [flags]\n" ++
  "  prove check <sequent>... [flags]\n" ++
  "  prove config [flags]\n" ++
  "\n" ++
  "Flags:\n" ++
  "  --config file       the file with the settings\n" ++
  "  --unicode           print formulas with unicode symbols\n" ++
  "  --negation          print P -> ! as ~P\n" ++
  "  --color mode        when to color the output: auto, always or never\n" ++
  "  --log-level level   the least level to log: debug, info, warn or error\n" ++
  "  --log-file file     the file the logs are appended to\n" ++
  "  --timeout duration  the longest time for a validity check\n" ++
  "  -s, --sequent text  a sequent to prove instead of those of a file\n" ++
  "  -h, --help          print this text\n"

/-! ## Settings -/

/-- The file of the settings below the directory of a user's settings. -/
def settingsFile (directory : Text) : Text := directory ++ Text.ofString "/prove/config.yaml"

/-- The settings in a file. -/
def fileSettings (path : Text) : Except FileError Text → Except ProgramError Settings
  | .error e => .error (.unreadSettings e)
  | .ok content => (Settings.read content).mapError (.settingsFile path)

/-- The settings in the usual file, which need not exist. -/
def usualSettings (path : Text) : Except FileError Text → Except ProgramError Settings
  | .error { isOpen := false, fault := .missing, .. } => .ok {}
  | content => fileSettings path content

/-- The settings of a command line: those of a file, with its flags put in
their place. -/
def settings {m : Type → Type} [Monad m] (host : Host m) (flags : FlagValues) :
    m (Except ProgramError Settings) := do
  let base ←
    if !flags.config.isEmpty then
      let content ← host.read flags.config
      pure (fileSettings flags.config content)
    else
      match host.settingsDirectory with
      | none => pure (.ok {})
      | some directory =>
        let content ← host.read (settingsFile directory)
        pure (usualSettings (settingsFile directory) content)
  return base.bind fun s => (flags.override s).check.mapError .settings

/-! ## Jobs -/

/-- How derivations are shown with settings; the output is no terminal. -/
def display (s : Settings) : Picture.Options :=
  { style := s.style, emphasis := s.emphasis, painter := Theme.painter false s.highlight }

/-- Where logs go with settings. -/
def logger (s : Settings) : Logger := { level := s.level, json := s.json, file := s.file }

/-- The record of a session that starts. -/
def startRecord (n : Nat) : LogRecord :=
  { level := .debug, message := Text.ofString "starting line session",
    attrs := [.ofNat "sequents" n] }

/-- Proves sequents in a session over the lines of an input, with a time
limit for queries. -/
def prove (s : Settings) (limit : Int) (sequents : List Sequent) (input : Text) : JobResult :=
  match Session.start? sequents { display := display s, limit } with
  | none => { failure := some .nothing }
  | some (session, first) =>
    let t := Transcript.run session false input
    { output := t.output
      records := first ++ startRecord sequents.length :: t.records
      failure := t.error.map .session }

/-- Derives a sequent by requests, and draws what comes of it. -/
def render (s : Settings) : List Text → JobResult
  | [] => { failure := some (.invocation .tooFew) }
  | text :: lines =>
    match Sequent.parse text with
    | .error e => { failure := some (.goal e) }
    | .ok goal =>
      let r := Rendering.run goal lines
      { output := Picture.draw (display s) r.derivation
        records := r.records
        failure := r.failure.map .rule }

/-- Tells whether sequents are valid, with a time limit for each. -/
def check (s : Settings) (limit : Int) : List Text → JobResult
  | [] => {}
  | text :: rest =>
    match Sequent.parse text with
    | .error e => { failure := some (.question text e) }
    | .ok q =>
      match Interruption.ofLimit? limit with
      | some why => { failure := some (.stopped (q.print s.style) why) }
      | none =>
        let after := check s limit rest
        { after with output := q.print s.style ++ ": " ++ q.check.message ++ "\n" ++ after.output }

/-- Reads the sequents given on a command line, the first with number `n`. -/
def parseSequents (n : Nat) : List Text → Except ProgramError (List Sequent)
  | [] => .ok []
  | t :: rest =>
    match Sequent.parse t with
    | .error e => .error (.sequent n e)
    | .ok s => (parseSequents (n + 1) rest).map (s :: ·)

/-- The file of sequents when none is given. -/
def usualFile : Text := Text.ofString "sequents.txt"

/-- The sequents in a file. -/
def fileSequents (path : Text) : Except FileError Text → Except ProgramError (List Sequent)
  | .error e => .error (if e.isOpen then .unreadSequents path e else .unopenedSequents e)
  | .ok content => (SequentFile.load content).mapError (.sequentFile path)

/-- The sequents to prove: those of the flags, or those of a file. -/
def sequents {m : Type → Type} [Monad m] (host : Host m) (i : Invocation) :
    m (Except ProgramError (List Sequent)) := do
  match i.flags.sequents, i.args with
  | _ :: _, _ :: _ => return .error .bothSources
  | [], args =>
    let path := args.head?.getD usualFile
    let content ← host.read path
    return fileSequents path content
  | texts, [] => return parseSequents 1 texts

/-- Does a job that logs.  The log file is opened first, so it is there even
if nothing is logged. -/
def logged {m : Type → Type} [Monad m] (host : Host m) (s : Settings) (job : m JobResult) :
    m ProgramResult := do
  let l := logger s
  let file := l.file
  if file.isEmpty then
    let r ← job
    return finished r (l.output r.records)
  else
    match ← host.append file "" with
    | .error e => return failed (.unopenedLog e)
    | .ok () =>
      let r ← job
      let _ ← host.append file (l.fileOutput r.records)
      return finished r (l.output r.records)

/-- Does the job of a command line with settings. -/
def perform {m : Type → Type} [Monad m] (host : Host m) (i : Invocation) (s : Settings) :
    m ProgramResult := do
  match i.job with
  | .config => return { output := s.print }
  | .check => return finished (check s i.flags.timeout i.args) ""
  | .render => logged host s (pure (render s i.args))
  | .session =>
    match ← sequents host i with
    | .error e => return failed e
    | .ok ss => logged host s do return prove s i.flags.timeout ss (← host.input)

/-- Runs the program on a command line. -/
def run {m : Type → Type} [Monad m] (host : Host m) (args : List Text) : m ProgramResult := do
  match Invocation.read args with
  | .error e => return failed (.invocation (.flag e))
  | .ok i =>
    if i.flags.help then return { output := help }
    else
      match i.checkCount with
      | .error e => return failed (.invocation e)
      | .ok () =>
        match ← settings host i.flags with
        | .error e => return failed e
        | .ok s => perform host i s

end Program

end Sequitur
