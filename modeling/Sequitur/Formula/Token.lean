import Sequitur.Text.Glyph
import Sequitur.Formula.Basic

/-!
# Sequitur.Formula.Token

The tokens of a formula, each with the byte offset it was written at.
Tokens are separated by any number of spaces, tabs, newlines and carriage
returns, which are needed between two names only.  Operators have an ASCII
spelling of up to three characters and Unicode spellings of one.

The scanner goes over the text glyph by glyph.  Its state says what the
last glyphs have begun: nothing, a name, or an operator of which some
characters are still missing.
-/

namespace Sequitur

/-! ## Tokens -/

/-- What a token says. -/
inductive Lexeme where
  | name (x : Name)
  | falsity
  | neg
  | op (c : Connective)
  | lparen
  | rparen
deriving DecidableEq

/-- A lexeme and the byte offset it starts at. -/
structure Token where
  lexeme : Lexeme
  offset : Nat
deriving DecidableEq

/-- What is wrong with a text that does not split into balanced tokens. -/
inductive LexFault where
  /-- The text ends inside an operator. -/
  | endInOperator
  /-- An operator goes on with a wrong character. -/
  | inOperator
  /-- A glyph that starts no token. -/
  | unexpected (g : Glyph)
  /-- A closing parenthesis that closes nothing. -/
  | unopened
  /-- An opening parenthesis that nothing closes. -/
  | unclosed
deriving DecidableEq

/-- The wording of a fault.  U+FFFD is what broken input is usually replaced
with, so it is reported like a stray byte. -/
def LexFault.message : LexFault → String
  | endInOperator => "unexpected end of input in operator"
  | inOperator => "unexpected character in operator"
  | unexpected g =>
    if g.shown = '�' then "unexpected character (invalid UTF-8)"
    else "unexpected character '" ++ g.shown.toString ++ "'"
  | unopened => "unexpected closing parenthesis"
  | unclosed => "closing parenthesis expected"

/-- A fault and the byte offset it was found at. -/
structure LexError where
  offset : Nat
  fault : LexFault
deriving DecidableEq

/-- The message of an error. -/
def LexError.message (e : LexError) : String :=
  "at offset " ++ toString e.offset ++ ": " ++ e.fault.message

/-! ## The alphabet -/

/-- The characters that may separate tokens. -/
def isGap (c : Char) : Bool := c == ' ' || c == '\t' || c == '\n' || c == '\r'

/-- The lexemes that a single character spells. -/
def Lexeme.ofChar? : Char → Option Lexeme
  | '(' => some .lparen
  | ')' => some .rparen
  | '!' => some .falsity
  | '⊥' => some .falsity
  | '~' => some .neg
  | '¬' => some .neg
  | '∧' => some (.op .conj)
  | '∨' => some (.op .disj)
  | '➔' => some (.op .impl)
  | '→' => some (.op .impl)
  | '↔' => some (.op .equiv)
  | '⇔' => some (.op .equiv)
  | _ => none

/-- The connective whose ASCII spelling starts with a character, with the
rest of that spelling: the next character and those after it. -/
def Connective.starting? : Char → Option (Connective × Char × List Char)
  | '/' => some (.conj, '\\', [])
  | '\\' => some (.disj, '/', [])
  | '-' => some (.impl, '>', [])
  | '<' => some (.equiv, '-', ['>'])
  | _ => none

/-! ## The scanner -/

/-- What the glyphs just read have begun. -/
inductive Pending where
  /-- Nothing: the next glyph starts afresh. -/
  | gap
  /-- A name: where it starts, its first letter and its later characters, last first. -/
  | name (start : Nat) (first : Letter) (later : List NameChar)
  /-- An operator: where it starts, and what is missing of its spelling. -/
  | operator (start : Nat) (c : Connective) (next : Char) (more : List Char)

namespace Token

/-- Reads a glyph that starts afresh, at offset `pos` and with `rest` after
it: the tokens it completes and what it begins.  An operator that the end
of the text cuts short is reported at its start. -/
def start (pos : Nat) (rest : Text) : Glyph → Except LexError (List Token × Pending)
  | .stray b => .error ⟨pos, .unexpected (.stray b)⟩
  | .char c =>
    if isGap c then .ok ([], .gap)
    else if h : isLetter c = true then .ok ([], .name pos ⟨c, h⟩ [])
    else
      match Lexeme.ofChar? c, Connective.starting? c with
      | some lexeme, _ => .ok ([⟨lexeme, pos⟩], .gap)
      | none, some (op, next, more) =>
        if rest.shorterThan (more.length + 1) then .error ⟨pos, .endInOperator⟩
        else .ok ([], .operator pos op next more)
      | none, none => .error ⟨pos, .unexpected (.char c)⟩

/-- The name character that a glyph is, if it is one. -/
def nameChar? : Glyph → Option NameChar
  | .char c => if h : isNameChar c = true then some ⟨c, h⟩ else none
  | .stray _ => none

/-- Reads one glyph in a state: the tokens it completes and the next state. -/
def step (pos : Nat) (rest : Text) (g : Glyph) :
    Pending → Except LexError (List Token × Pending)
  | .gap => start pos rest g
  | .name begun first later =>
    match nameChar? g with
    | some c => .ok ([], .name begun first (c :: later))
    | none => do
      let (tokens, state) ← start pos rest g
      .ok (⟨.name ⟨first, later.reverse⟩, begun⟩ :: tokens, state)
  | .operator begun op next more =>
    if g = .char next then
      match more with
      | [] => .ok ([⟨.op op, begun⟩], .gap)
      | next :: more => .ok ([], .operator begun op next more)
    else .error ⟨pos, .inOperator⟩

/-- The tokens that the end of the text completes. -/
def finish : Pending → Except LexError (List Token)
  | .gap => .ok []
  | .name begun first later => .ok [⟨.name ⟨first, later.reverse⟩, begun⟩]
  | .operator begun _ _ _ => .error ⟨begun, .endInOperator⟩

/-- The tokens of a text that starts at offset `pos`, read in a state. -/
def scanFrom (pos : Nat) (state : Pending) : Text → Except LexError (List Token)
  | [] => finish state
  | g :: rest => do
    let (tokens, state) ← step pos rest g state
    let more ← scanFrom (pos + g.size) state rest
    .ok (tokens ++ more)

/-- The tokens of a text. -/
def scan (t : Text) : Except LexError (List Token) := scanFrom 0 .gap t

end Token

end Sequitur
