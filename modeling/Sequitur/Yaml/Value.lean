import Sequitur.Text.Number
import Sequitur.Yaml.Source

/-!
# Sequitur.Yaml.Value

What the text of a plain scalar stands for: null, a boolean, a number, a
date, or the text itself.  Only the kind of number or date is told apart,
since nothing here computes with them.

* Integers are decimal, or hexadecimal, octal and binary after `0x`, `0o`
  or `0`, and `0b`.  They have 64 bits, and `_` may stand between digits.
* Other decimal numbers are floats, unless they exceed the greatest one.
* A date is year, month and day, with or without a time of the day.
-/

namespace Sequitur.Yaml

/-- What a scalar stands for. -/
inductive Value where
  | null
  | bool (b : Bool)
  | int
  /-- An integer that has 64 bits only without a sign. -/
  | wideInt
  | float
  | timestamp
  | text
deriving DecidableEq

/-- The tag of a value. -/
def Value.tag : Value → String
  | null => "!!null"
  | bool _ => "!!bool"
  | int => "!!int"
  | wideInt => "!!int"
  | float => "!!float"
  | timestamp => "!!timestamp"
  | text => "!!str"

/-! ## Integers -/

/-- The value of a digit in a base of 16 at most. -/
def digit? (base : Nat) (c : Char) : Option Nat :=
  match hexValue? c with
  | some d => if d < base then some d else none
  | none => none

/-- The number with the given digits, after those of `n`. -/
def numeral? (base n : Nat) : List Char → Option Nat
  | [] => some n
  | c :: rest =>
    match digit? base c with
    | some d => numeral? base (n * base + d) rest
    | none => none

/-- The number with at least one digit. -/
def numeral1? (base : Nat) : List Char → Option Nat
  | [] => none
  | cs => numeral? base 0 cs

/-- A number without a sign, whose first characters give its base. -/
def magnitude? : List Char → Option Nat
  | [] => none
  | ['0'] => some 0
  | '0' :: c :: rest =>
    let base := match c.toLower with
      | 'x' => 16
      | 'o' => 8
      | 'b' => 2
      | _ => 0
    if base = 0 || rest.isEmpty then numeral? 8 0 (c :: rest) else numeral? base 0 rest
  | cs => numeral? 10 0 cs

/-- Whether a number, read by `read?` without its sign, has 64 bits. -/
def fitsSigned (read? : List Char → Option Nat) : List Char → Bool
  | '-' :: cs => ((read? cs).map fun n => decide (n ≤ Number.signedLimit)).getD false
  | '+' :: cs => ((read? cs).map fun n => decide (n < Number.signedLimit)).getD false
  | cs => ((read? cs).map fun n => decide (n < Number.unsignedLimit)).getD false

/-- Whether a text, without its separators, is an integer.  The sign may
also stand between the marker of the base and the digits. -/
def isInteger (cs : List Char) : Bool :=
  fitsSigned magnitude? cs ||
    match cs with
    | '0' :: 'b' :: rest => fitsSigned (numeral1? 2) rest
    | '0' :: 'o' :: rest => fitsSigned (numeral1? 8) rest
    | _ => false

/-- Whether an integer takes all of 64 bits, so that there is no room for a
sign. -/
def isWide (cs : List Char) : Bool :=
  ((magnitude? cs).map fun n => decide (Number.signedLimit ≤ n)).getD false

/-! ## Floats -/

/-- A text with its sign cut off. -/
def unsigned : List Char → List Char
  | '-' :: cs => cs
  | '+' :: cs => cs
  | cs => cs

/-- The number of a list of decimal digits. -/
def decimal (ds : List Char) : Nat := ds.foldl (fun n c => n * 10 + (c.toNat - '0'.toNat)) 0

/-- Whether a decimal number, the given digits times a power of ten, rounds
to a float that is finite.  Sizes that are far from the limit are settled by
the number of digits. -/
def isFinite (digits : List Char) (exponent : Int) : Bool :=
  let n := decimal digits
  let size : Int := (digits.dropWhile (· = '0')).length + exponent
  if n = 0 || size ≤ 308 then true
  else if size > 309 then false
  else
    let limit := Nat.pow 2 1024 - Nat.pow 2 970
    if exponent ≥ 0 then n * Nat.pow 10 exponent.toNat < limit
    else n < limit * Nat.pow 10 (-exponent).toNat

/-- A decimal number without a sign: its digits, and its power of ten. -/
def decimalParts? (cs : List Char) : Option (List Char × Int) := do
  let whole := cs.takeWhile Char.isDigit
  let rest := cs.dropWhile Char.isDigit
  let (fraction, rest) := match rest with
    | '.' :: rest => (rest.takeWhile Char.isDigit, rest.dropWhile Char.isDigit)
    | _ => ([], rest)
  if whole.isEmpty && fraction.isEmpty then none
  else
    let scale : Int := -fraction.length
    match rest with
    | [] => some (whole ++ fraction, scale)
    | e :: rest =>
      if e = 'e' || e = 'E' then
        let digits := unsigned rest
        if digits.isEmpty || !digits.all Char.isDigit then none
        else
          let n : Int := decimal digits
          some (whole ++ fraction, scale + (if rest.head? = some '-' then -n else n))
      else none

/-- Whether a text, without its separators, is a float. -/
def isFloat (cs : List Char) : Bool :=
  match decimalParts? (unsigned cs) with
  | some (digits, exponent) => isFinite digits exponent
  | none => false

/-- Whether separators stand between digits only. -/
def separated (afterDigit : Bool) : List Char → Bool
  | [] => true
  | '_' :: rest =>
    afterDigit &&
      match rest with
      | [] => false
      | c :: _ => c.isDigit && separated false rest
  | c :: rest => separated c.isDigit rest

/-! ## Dates -/

/-- A number of one or two digits. -/
def short? : List Char → Option (Nat × List Char)
  | [] => none
  | a :: rest =>
    if !a.isDigit then none
    else
      match rest with
      | [] => some (decimal [a], [])
      | b :: rest' => if b.isDigit then some (decimal [a, b], rest') else some (decimal [a], rest)

/-- A text without the character it starts with. -/
def after? (c : Char) : List Char → Option (List Char)
  | [] => none
  | d :: rest => if d = c then some rest else none

/-- The number of days of a month. -/
def daysOfMonth (year month : Nat) : Nat :=
  if month = 2 then
    if year % 4 = 0 && (year % 100 ≠ 0 || year % 400 = 0) then 29 else 28
  else if month = 4 || month = 6 || month = 9 || month = 11 then 30
  else 31

/-- A day: four digits, then month and day after dashes. -/
def day? (cs : List Char) : Option (List Char) := do
  let year := cs.takeWhile Char.isDigit
  if year.length ≠ 4 then none
  else
    let rest ← after? '-' (cs.dropWhile Char.isDigit)
    let (month, rest) ← short? rest
    let rest ← after? '-' rest
    let (day, rest) ← short? rest
    if 1 ≤ month && month ≤ 12 && 1 ≤ day && day ≤ daysOfMonth (decimal year) month then some rest
    else none

/-- A time of the day: hour, minute and second after colons, and digits of
a fraction after a point or a comma. -/
def clock? (cs : List Char) : Option (List Char) := do
  let (hour, rest) ← short? cs
  let rest ← after? ':' rest
  let (minute, rest) ← short? rest
  let rest ← after? ':' rest
  let (second, rest) ← short? rest
  if 24 ≤ hour || 60 ≤ minute || 60 ≤ second then none
  else
    match rest with
    | p :: d :: more =>
      if (p = '.' || p = ',') && d.isDigit then some (more.dropWhile Char.isDigit) else some rest
    | _ => some rest

/-- Whether a text is a time zone: `Z`, or hours and minutes after a sign. -/
def isZone : List Char → Bool
  | ['Z'] => true
  | [sign, a, b, ':', c, d] =>
    (sign = '+' || sign = '-') && [a, b, c, d].all Char.isDigit && decimal [a, b] ≤ 24 &&
      decimal [c, d] ≤ 60
  | _ => false

/-- Whether a text is a date.  A time of the day after a `T` has a zone, one
after spaces has none. -/
def isTimestamp (cs : List Char) : Bool :=
  match day? cs with
  | none => false
  | some [] => true
  | some (c :: rest) =>
    if c = ' ' then clock? (rest.dropWhile (· = ' ')) = some []
    else (c = 'T' || c = 't') && (clock? rest).any isZone

/-! ## Values -/

/-- The words that stand for something else than themselves. -/
def word? (s : String) : Option Value :=
  if s ∈ ["", "~", "null", "Null", "NULL"] then some .null
  else if s ∈ ["true", "True", "TRUE"] then some (.bool true)
  else if s ∈ ["false", "False", "FALSE"] then some (.bool false)
  else if s ∈ [".nan", ".NaN", ".NAN", ".inf", ".Inf", ".INF", "+.inf", "+.Inf", "+.INF",
      "-.inf", "-.Inf", "-.INF"] then some .float
  else none

/-- What a text stands for, dates left aside unless `dates`. -/
def Value.ofText (dates : Bool) (s : String) : Value :=
  match word? s with
  | some v => v
  | none =>
    match s.toList with
    | [] => .null
    | c :: rest =>
      let digits := (c :: rest).filter (· ≠ '_')
      if c = '.' then if separated false (c :: rest) && isFloat digits then .float else .text
      else if c.isDigit || c = '+' || c = '-' then
        if dates && isTimestamp (c :: rest) then .timestamp
        else if isInteger digits then if isWide digits then .wideInt else .int
        else if isFloat digits then .float
        else .text
      else .text

end Sequitur.Yaml
