import Sequitur.Text.Quoted

/-!
# Sequitur.Text.Number

Whole numbers written by the user: an optional sign and decimal digits,
for a value that fits a signed 64-bit word.
-/

namespace Sequitur

/-- Why a text is no number. -/
inductive NumberFault where
  /-- Something other than a sign in front and digits, or no digit at all. -/
  | malformed
  /-- The value does not fit a signed 64-bit word. -/
  | tooLarge
deriving DecidableEq

/-- The wording of a fault. -/
def NumberFault.message : NumberFault → String
  | malformed => "invalid syntax"
  | tooLarge => "value out of range"

namespace Number

/-- The number of values of a 64-bit word. -/
def unsignedLimit : Nat := 18446744073709551616

/-- The number of values of a signed 64-bit word that are not negative. -/
def signedLimit : Nat := 9223372036854775808

/-- The value of a decimal digit. -/
def digit? : Glyph → Option Nat
  | .char c => if '0' ≤ c && c ≤ '9' then some (c.toNat - 48) else none
  | .stray _ => none

/-- Reads digits after those worth `value`.  A value that no longer fits an
unsigned 64-bit word is reported at once, before what follows is looked at. -/
def magnitude (value : Nat) : Text → Except NumberFault Nat
  | [] => .ok value
  | g :: rest =>
    match digit? g with
    | none => .error .malformed
    | some d =>
      if unsignedLimit ≤ value * 10 + d then .error .tooLarge
      else magnitude (value * 10 + d) rest

/-- Reads a number without its sign: at least one digit. -/
def unsigned : Text → Except NumberFault Nat
  | [] => .error .malformed
  | digits => magnitude 0 digits

/-- Reads a number. -/
def read : Text → Except NumberFault Int
  | .char '-' :: digits => do
    let n ← unsigned digits
    if signedLimit < n then .error .tooLarge else .ok (-(n : Int))
  | .char '+' :: digits => positive digits
  | digits => positive digits
where
  /-- Reads a number without a minus sign. -/
  positive (digits : Text) : Except NumberFault Int := do
    let n ← unsigned digits
    if signedLimit ≤ n then .error .tooLarge else .ok n

/-- The message for a text that is no number. -/
def faultMessage (t : Text) (fault : NumberFault) : String :=
  "strconv.Atoi: parsing " ++ t.quoted ++ ": " ++ fault.message

end Number

end Sequitur
