import Sequitur.Formula.Basic

/-!
# Sequitur.Formula.Symbol

The symbols formulas and sequents are written with.  Each has an ASCII and
a Unicode spelling; some have the same one twice.
-/

namespace Sequitur

/-- A symbol of the written language. -/
inductive Symbol where
  | lparen
  | rparen
  | falsity
  | conj
  | disj
  | neg
  | impl
  | equiv
  | turnstile
  | comma
deriving DecidableEq

namespace Symbol

/-- All symbols, in their usual order. -/
def all : List Symbol :=
  [lparen, rparen, falsity, conj, disj, neg, impl, equiv, turnstile, comma]

/-- The spelling in ASCII. -/
def ascii : Symbol → String
  | lparen => "("
  | rparen => ")"
  | falsity => "!"
  | conj => "/\\"
  | disj => "\\/"
  | neg => "~"
  | impl => "->"
  | equiv => "<->"
  | turnstile => "|-"
  | comma => ","

/-- The spelling in Unicode. -/
def unicode : Symbol → String
  | falsity => "⊥"
  | conj => "∧"
  | disj => "∨"
  | impl => "➔"
  | equiv => "↔"
  | turnstile => "⊢"
  | s => s.ascii

/-- The spelling in the chosen alphabet. -/
def spelling (useUnicode : Bool) (s : Symbol) : String :=
  if useUnicode then s.unicode else s.ascii

end Symbol

/-- The symbol of a connective. -/
def Connective.symbol : Connective → Symbol
  | conj => .conj
  | disj => .disj
  | impl => .impl
  | equiv => .equiv

end Sequitur
