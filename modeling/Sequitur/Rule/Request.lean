import Sequitur.Text.Blank
import Sequitur.Text.Number
import Sequitur.Formula.Parser
import Sequitur.Sequent.Basic

/-!
# Sequitur.Rule.Request

What a user asks for: a command and its arguments.  Some commands name one
rule, others choose it from the shape of the goal.

A `Request` holds exactly the arguments its command takes.  A `Call` is the
loose form, a command number with any formulas and any positions; `check`
tells whether it is a request.  Requests are written as a command name
followed by formulas, separated by commas, or by positions, separated by
blanks or commas.
-/

namespace Sequitur

/-! ## Commands -/

/-- The commands that apply a rule. -/
inductive Command where
  | hypothesis
  | intro
  | implIntro
  | implIntros
  | elim
  | modusPonens
  | disjIntroLeft
  | disjIntroRight
  | disjElim
  | conjIntro
  | conjElim
  | exfalso
  | weaken
deriving DecidableEq

namespace Command

/-- All commands; a command's number is its place in this list. -/
def all : List Command :=
  [hypothesis, intro, implIntro, implIntros, elim, modusPonens, disjIntroLeft,
    disjIntroRight, disjElim, conjIntro, conjElim, exfalso, weaken]

/-- The name a command is written with. -/
def name : Command → String
  | hypothesis => "h"
  | intro => "i"
  | implIntro => "ii"
  | implIntros => "iis"
  | elim => "e"
  | modusPonens => "mp"
  | disjIntroLeft => "dil"
  | disjIntroRight => "dir"
  | disjElim => "de"
  | conjIntro => "ci"
  | conjElim => "ce"
  | exfalso => "xf"
  | weaken => "aff"

/-- The number of formulas a command takes. -/
def formulaCount : Command → Nat
  | modusPonens => 1
  | disjElim => 2
  | conjElim => 2
  | _ => 0

/-- The number of positions a command takes, except that weakening takes any. -/
def positionCount : Command → Nat
  | elim => 1
  | _ => 0

/-- The command with a number. -/
def ofNumber? (n : Int) : Option Command := nth? all n

/-- The number of a command. -/
def number (c : Command) : Nat := all.idxOf c

/-- The command with a name. -/
def ofName? (t : Text) : Option Command := all.find? fun c => Text.ofString c.name = t

/-- The names of all commands, in increasing order. -/
def names : List String := (all.map name).mergeSort fun a b => decide (a ≤ b)

end Command

/-! ## Requests -/

/-- A command with its arguments. -/
inductive Request where
  | hypothesis
  | intro
  | implIntro
  | implIntros
  | elim (i : Int)
  | modusPonens (b : Formula)
  | disjIntroLeft
  | disjIntroRight
  | disjElim (a b : Formula)
  | conjIntro
  | conjElim (a b : Formula)
  | exfalso
  | weaken (is : List Int)
deriving DecidableEq

namespace Request

/-- The command of a request. -/
def command : Request → Command
  | hypothesis => .hypothesis
  | intro => .intro
  | implIntro => .implIntro
  | implIntros => .implIntros
  | elim _ => .elim
  | modusPonens _ => .modusPonens
  | disjIntroLeft => .disjIntroLeft
  | disjIntroRight => .disjIntroRight
  | disjElim _ _ => .disjElim
  | conjIntro => .conjIntro
  | conjElim _ _ => .conjElim
  | exfalso => .exfalso
  | weaken _ => .weaken

/-- The formulas of a request. -/
def formulas : Request → List Formula
  | modusPonens b => [b]
  | disjElim a b => [a, b]
  | conjElim a b => [a, b]
  | _ => []

/-- The positions of a request. -/
def positions : Request → List Int
  | elim i => [i]
  | weaken is => is
  | _ => []

/-- Strings with a separator between them. -/
def joined (sep : String) : List String → String
  | [] => ""
  | [s] => s
  | s :: rest => s ++ sep ++ joined sep rest

/-- A request as it is written. -/
def toString (r : Request) : String :=
  match r.formulas, r.positions with
  | [], [] => r.command.name
  | [], is => r.command.name ++ " " ++ joined " " (is.map ToString.toString)
  | ps, _ => r.command.name ++ " " ++ joined ", " (ps.map Formula.toString)

instance : ToString Request := ⟨toString⟩

end Request

/-! ## Errors -/

/-- Why something is no request. -/
inductive RequestFault where
  /-- No command has this number. -/
  | unknownNumber (n : Int)
  /-- There is no command name. -/
  | empty
  /-- No command has this name. -/
  | unknownName (t : Text)
  /-- A command with a wrong number of formulas. -/
  | formulaCount (c : Command) (found : Nat)
  /-- A command with a wrong number of positions. -/
  | positionCount (c : Command) (found : Nat)
  /-- The formula at a place is none. -/
  | formula (index : Nat) (e : FormulaError)
  /-- A command that takes positions without any. -/
  | noPosition (c : Command)
  /-- A position that is no number. -/
  | position (t : Text) (fault : NumberFault)
  /-- A command that takes no argument with one. -/
  | unexpectedArgument (c : Command)
deriving DecidableEq

namespace RequestFault

/-- The wording of a wrong number of arguments. -/
def countMessage (c : Command) (want : Nat) (what : String) (found : Nat) : String :=
  c.name ++ " expects " ++ ToString.toString want ++ " " ++ what ++ " argument" ++
    (if want = 1 then "" else "s") ++ ", got " ++ ToString.toString found

/-- What a fault says, without the error it comes from. -/
def summary : RequestFault → String
  | unknownNumber n => "unknown rule request " ++ ToString.toString n
  | empty => "empty rule application"
  | unknownName t => "unknown rule application " ++ t.quoted
  | formulaCount c found => countMessage c c.formulaCount "formula" found
  | positionCount c found => countMessage c c.positionCount "index" found
  | formula i _ => "invalid formula argument #" ++ ToString.toString i
  | noPosition c => c.name ++ " expects at least one index"
  | position t _ => "not a number: " ++ t.quoted
  | unexpectedArgument c => c.name ++ " expects no argument"

/-- The message of a fault. -/
def message (fault : RequestFault) : String :=
  match fault with
  | formula _ e => fault.summary ++ ": " ++ e.message
  | position t f => fault.summary ++ ": " ++ Number.faultMessage t f
  | _ => fault.summary

end RequestFault

/-- A fault and the input it was found in. -/
structure RequestError where
  input : Text
  fault : RequestFault
deriving DecidableEq

/-- The message of an error. -/
def RequestError.message (e : RequestError) : String := e.fault.message

/-! ## Calls -/

/-- A command number with any arguments. -/
structure Call where
  number : Int
  formulas : List Formula
  positions : List Int
deriving DecidableEq

/-- A request as a call. -/
def Request.call (r : Request) : Call :=
  { number := r.command.number, formulas := r.formulas, positions := r.positions }

namespace Call

/-- The request that a command makes with arguments, if they are as many as
it takes. -/
def request? : Command → List Formula → List Int → Option Request
  | .hypothesis, [], [] => some .hypothesis
  | .intro, [], [] => some .intro
  | .implIntro, [], [] => some .implIntro
  | .implIntros, [], [] => some .implIntros
  | .elim, [], [i] => some (.elim i)
  | .modusPonens, [b], [] => some (.modusPonens b)
  | .disjIntroLeft, [], [] => some .disjIntroLeft
  | .disjIntroRight, [], [] => some .disjIntroRight
  | .disjElim, [a, b], [] => some (.disjElim a b)
  | .conjIntro, [], [] => some .conjIntro
  | .conjElim, [a, b], [] => some (.conjElim a b)
  | .exfalso, [], [] => some .exfalso
  | .weaken, [], is => some (.weaken is)
  | _, _, _ => none

/-- Tells whether a call is a request.  Formulas are counted before
positions.  The input of the error is the name of the command, if there is
one. -/
def check (call : Call) : Except RequestError Request :=
  match Command.ofNumber? call.number with
  | none => .error ⟨[], .unknownNumber call.number⟩
  | some c =>
    match request? c call.formulas call.positions with
    | some r => .ok r
    | none =>
      .error ⟨Text.ofString c.name,
        if call.formulas.length = c.formulaCount then .positionCount c call.positions.length
        else .formulaCount c call.formulas.length⟩

end Call

/-! ## Reading -/

namespace Request

/-- Reads the formula at a place. -/
def parseFormula (i : Nat) (t : Text) : Except RequestFault Formula :=
  match Formula.parse t with
  | .error e => .error (.formula i e)
  | .ok p => .ok p

/-- Reads a position. -/
def parsePosition (t : Text) : Except RequestFault Int :=
  match Number.read t with
  | .error fault => .error (.position t fault)
  | .ok i => .ok i

/-- Whether a glyph separates positions. -/
def isSeparator (g : Glyph) : Bool := g = .char ',' || g.isBlank

/-- Reads a command that takes no argument. -/
def parseNone (r : Request) (args : Text) : Except RequestFault Request :=
  if args.isEmpty then .ok r else .error (.unexpectedArgument r.command)

/-- Reads a command that takes a formula. -/
def parseOne (c : Command) (make : Formula → Request) : List Text → Except RequestFault Request
  | [a] => do
    let p ← parseFormula 0 a
    .ok (make p)
  | parts => .error (.formulaCount c parts.length)

/-- Reads a command that takes two formulas. -/
def parseTwo (c : Command) (make : Formula → Formula → Request) :
    List Text → Except RequestFault Request
  | [a, b] => do
    let p ← parseFormula 0 a
    let q ← parseFormula 1 b
    .ok (make p q)
  | parts => .error (.formulaCount c parts.length)

/-- Reads an elimination. -/
def parseElim : List Text → Except RequestFault Request
  | [t] => do
    let i ← parsePosition t
    .ok (.elim i)
  | parts => .error (.positionCount .elim parts.length)

/-- Reads a weakening, which takes one position at least. -/
def parseWeaken : List Text → Except RequestFault Request
  | [] => .error (.noPosition .weaken)
  | parts => do
    let is ← parts.mapM parsePosition
    .ok (.weaken is)

/-- Reads the arguments of a command, blanks removed at both ends. -/
def parseArgs (args : Text) : Command → Except RequestFault Request
  | .hypothesis => parseNone .hypothesis args
  | .intro => parseNone .intro args
  | .implIntro => parseNone .implIntro args
  | .implIntros => parseNone .implIntros args
  | .elim => parseElim (args.fields isSeparator)
  | .modusPonens => parseOne .modusPonens .modusPonens formulas
  | .disjIntroLeft => parseNone .disjIntroLeft args
  | .disjIntroRight => parseNone .disjIntroRight args
  | .disjElim => parseTwo .disjElim .disjElim formulas
  | .conjIntro => parseNone .conjIntro args
  | .conjElim => parseTwo .conjElim .conjElim formulas
  | .exfalso => parseNone .exfalso args
  | .weaken => parseWeaken (args.fields isSeparator)
where
  /-- The texts of the formulas: none when there is no argument. -/
  formulas : List Text := if args.isEmpty then [] else args.splitOn ','

/-- Reads a request from a line without blanks at its ends. -/
def parseTrimmed (line : Text) : Except RequestFault Request :=
  let (name, rest) := line.firstWord
  match Command.ofName? name with
  | some c => parseArgs rest.trim c
  | none => .error (if name.isEmpty then .empty else .unknownName name)

/-- Reads a request. -/
def parse (line : Text) : Except RequestError Request :=
  match parseTrimmed line.trim with
  | .error fault => .error ⟨line.trim, fault⟩
  | .ok r => .ok r

end Request

end Sequitur
