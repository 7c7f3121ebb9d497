import Sequitur.Text.Number

/-!
# Sequitur.Program.Duration

Durations as they are written on a command line: a sign, then one or more
decimal numbers, each with a unit, such as `1h30m` or `-1.5s`.  A duration
is a number of nanoseconds of 64 bits.

A fraction of a unit is computed with 53 significant bits, each step rounded
to the nearest such number, and then cut to whole nanoseconds.
-/

namespace Sequitur

/-! ## Numbers of 53 bits -/

/-- A number with 53 significant bits at most: a mantissa times a power of
two. -/
structure Rounded where
  mantissa : Nat
  exponent : Int
deriving DecidableEq

namespace Rounded

/-- A quotient rounded to the nearest integer, a half to the even one. -/
def nearest (num den : Nat) : Nat :=
  let q := num / den
  let r := num % den
  if den < 2 * r || (den = 2 * r && q % 2 = 1) then q + 1 else q

/-- A quotient rounded to 53 bits. -/
def ofRatio (num den : Nat) : Rounded :=
  -- Shifted by this much, the quotient has one or two bits too many.
  let shift : Int := 54 + Nat.log2 den - Nat.log2 num
  let n := num * Nat.pow 2 shift.toNat
  let d := den * Nat.pow 2 (-shift).toNat
  let extra := Nat.log2 (n / d) - 52
  ⟨nearest n (d * Nat.pow 2 extra), extra - shift⟩

/-- An integer rounded to 53 bits. -/
def ofNat (n : Nat) : Rounded := ofRatio n 1

/-- The product of two numbers, rounded. -/
def mul (a b : Rounded) : Rounded :=
  let e := a.exponent + b.exponent
  ofRatio (a.mantissa * b.mantissa * Nat.pow 2 e.toNat) (Nat.pow 2 (-e).toNat)

/-- The quotient of two numbers, rounded. -/
def div (a b : Rounded) : Rounded :=
  let e := a.exponent - b.exponent
  ofRatio (a.mantissa * Nat.pow 2 e.toNat) (b.mantissa * Nat.pow 2 (-e).toNat)

/-- The integer part of a number. -/
def floor (a : Rounded) : Nat :=
  a.mantissa * Nat.pow 2 a.exponent.toNat / Nat.pow 2 (-a.exponent).toNat

end Rounded

/-! ## Durations -/

/-- Why a text is no duration. -/
inductive DurationFault where
  /-- It has another form, or is out of range. -/
  | malformed
  /-- A number has no unit. -/
  | unitless
  /-- A unit is unknown. -/
  | unknownUnit (unit : Text)
deriving DecidableEq

namespace Duration

/-- A byte between quotes.  Control characters and all bytes beyond ASCII
are written in hexadecimal. -/
def quotedByte (b : UInt8) : List Char :=
  let c := Char.ofNat b.toNat
  if b < 0x20 || 0x80 ≤ b then '\\' :: 'x' :: hexDigits 2 b.toNat
  else if c = '"' || c = '\\' then ['\\', c]
  else [c]

/-- A text between quotes. -/
def quoted (t : Text) : String := String.ofList ('"' :: t.bytes.flatMap quotedByte ++ ['"'])

/-- The message for a text that is no duration. -/
def message (t : Text) : DurationFault → String
  | .malformed => "time: invalid duration " ++ quoted t
  | .unitless => "time: missing unit in duration " ++ quoted t
  | .unknownUnit u => "time: unknown unit " ++ quoted u ++ " in duration " ++ quoted t

/-- The nanoseconds of a unit. -/
def unit? (t : Text) : Option Nat :=
  [("ns", 1), ("us", 1000), ("µs", 1000), ("μs", 1000), ("ms", 1000000), ("s", 1000000000),
    ("m", 60000000000), ("h", 3600000000000)].findSome? fun (name, n) =>
      if Text.ofString name = t then some n else none

/-- The digits that a text starts with, and what follows them. -/
def digits : Text → List Nat × Text
  | [] => ([], [])
  | g :: rest =>
    match Number.digit? g with
    | none => ([], g :: rest)
    | some d =>
      let (ds, after) := digits rest
      (d :: ds, after)

/-- The number of a list of digits. -/
def numeral (ds : List Nat) : Nat := ds.foldl (fun n d => n * 10 + d) 0

/-- Whether a glyph can start a number. -/
def startsNumber (g : Glyph) : Bool := g = .char '.' || (Number.digit? g).isSome

/-- The digits of a fraction that count: as many as make a number of 63
bits. -/
def significant (n : Nat) : List Nat → List Nat
  | [] => []
  | d :: ds =>
    if (Number.signedLimit - 1) / 10 < n || Number.signedLimit < n * 10 + d then []
    else d :: significant (n * 10 + d) ds

/-- The nanoseconds of a fraction of a unit. -/
def fractional (fraction : List Nat) (unit : Nat) : Nat :=
  let counted := significant 0 fraction
  let scale := counted.foldl (fun s _ => s.mul (.ofNat 10)) (Rounded.ofNat 1)
  if numeral counted = 0 then 0
  else ((Rounded.ofNat (numeral counted)).mul ((Rounded.ofNat unit).div scale)).floor

/-- The nanoseconds of a number with a unit, if they are in range. -/
def nanoseconds? (whole fraction : List Nat) (unit : Nat) : Option Nat :=
  if Number.signedLimit / unit < numeral whole then none
  else
    let n := numeral whole * unit + fractional fraction unit
    if Number.signedLimit < n then none else some n

/-- Reads numbers with units, the ones before them being `total`
nanoseconds. -/
def parts : Nat → Nat → Text → Except DurationFault Nat
  | 0, _, _ => .error .malformed
  | _, total, [] => .ok total
  | fuel + 1, total, g :: rest =>
    if !startsNumber g then .error .malformed
    else
      let (whole, after) := digits (g :: rest)
      let (fraction, after) := match after with
        | .char '.' :: after => digits after
        | after => ([], after)
      if Number.signedLimit < numeral whole || (whole.isEmpty && fraction.isEmpty) then
        .error .malformed
      else
        let name := after.takeWhile (!startsNumber ·)
        if name.isEmpty then .error .unitless
        else
          match unit? name with
          | none => .error (.unknownUnit name)
          | some unit =>
            match nanoseconds? whole fraction unit with
            | none => .error .malformed
            | some n =>
              if Number.signedLimit < total + n then .error .malformed
              else parts fuel (total + n) (after.dropWhile (!startsNumber ·))

/-- Reads a duration without its sign. -/
def magnitude (t : Text) : Except DurationFault Nat :=
  if t = [.char '0'] then .ok 0
  else if t.isEmpty then .error .malformed
  else parts (t.length + 1) 0 t

/-- Reads a duration, in nanoseconds. -/
def read (t : Text) : Except DurationFault Int :=
  match t with
  | .char '-' :: rest => (magnitude rest).map fun n => -(n : Int)
  | .char '+' :: rest => positive rest
  | t => positive t
where
  /-- Reads a duration that is not negative. -/
  positive (t : Text) : Except DurationFault Int :=
    match magnitude t with
    | .error e => .error e
    | .ok n => if Number.signedLimit ≤ n then .error .malformed else .ok n

end Duration

end Sequitur
