import Sequitur.Formula.Symbol

/-!
# Sequitur.Formula.Printer

Formulas as styled text.  Printed text is a list of spans, each with a
class that says what it stands for, so that it can be coloured without the
printer knowing about terminals.

An operand is put between parentheses only where it would otherwise be
read differently.  Chains associate to the right, so a left operand is
wrapped when it binds as loosely as the connective, a right operand only
when it binds more loosely.
-/

namespace Sequitur

/-- How formulas are spelled.  A style never changes what a formula is. -/
structure Style where
  /-- Unicode symbols rather than ASCII ones. -/
  unicode : Bool
  /-- Implications to falsity are written as negations. -/
  negation : Bool
deriving DecidableEq

/-- The style of messages: ASCII, with negations. -/
def Style.default : Style := { unicode := false, negation := true }

/-- What a span of printed text stands for. -/
inductive SpanClass where
  | plain
  | paren
  | name
  | operator
  | constant
  | turnstile
  | comma
deriving DecidableEq

/-- The word for a class. -/
def SpanClass.label : SpanClass → String
  | plain => "plain"
  | paren => "paren"
  | name => "name"
  | operator => "operator"
  | constant => "constant"
  | turnstile => "turnstile"
  | comma => "comma"

/-- A piece of printed text. -/
structure Span where
  text : String
  cls : SpanClass
  emphasis : Bool := false
deriving DecidableEq

namespace Span

/-- The text of spans, without their styling. -/
def plainText : List Span → String
  | [] => ""
  | s :: rest => s.text ++ plainText rest

/-- Marks all spans as emphasized. -/
def emphasize (spans : List Span) : List Span := spans.map ({ · with emphasis := true })

end Span

/-- The class a symbol is printed with. -/
def Symbol.spanClass : Symbol → SpanClass
  | lparen => .paren
  | rparen => .paren
  | falsity => .constant
  | turnstile => .turnstile
  | comma => .comma
  | _ => .operator

/-- A symbol as printed text. -/
def Symbol.span (st : Style) (s : Symbol) : Span :=
  { text := s.spelling st.unicode, cls := s.spanClass }

namespace Formula

section

variable {ν : Type} [DecidableEq ν]

/-- How loosely a formula binds as it is displayed: operands that never need
parentheses 0, negations 1, then the connectives. -/
def looseness (st : Style) : Formula ν → Nat
  | falsity => 0
  | var _ => 0
  | bin c _ r => if st.negation && c = .impl && r = falsity then 1 else c.looseness

/-- Puts printed text between parentheses if need be. -/
def wrap (st : Style) (need : Bool) (spans : List Span) : List Span :=
  if need then Symbol.lparen.span st :: spans ++ [Symbol.rparen.span st] else spans

variable [ToString ν]

/-- Prints a formula. -/
def format (st : Style) : Formula ν → List Span
  | falsity => [Symbol.falsity.span st]
  | var x => [{ text := ToString.toString x, cls := .name }]
  | bin c l r =>
    if st.negation && c = .impl && r = falsity then
      Symbol.neg.span st :: wrap st (1 < l.looseness st) (l.format st)
    else
      wrap st (c.looseness ≤ l.looseness st) (l.format st) ++
        c.symbol.span st :: wrap st (c.looseness < r.looseness st) (r.format st)

/-- A formula as a string in a style. -/
def print (st : Style) (p : Formula ν) : String := Span.plainText (p.format st)

end

/-- A formula as a string in messages. -/
def toString (p : Formula) : String := p.print .default

instance : ToString Formula := ⟨toString⟩

end Formula

end Sequitur
