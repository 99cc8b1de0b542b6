import MethodIR.Json.Fault

/-!
Number literals. A literal is kept as it is written; `Literal.number` says which number it stands
for: an integer of at most 64 bits, or a double.
-/
namespace MethodIR.Json

/-- A number as written: sign, digits before the point, digits after it (none without a point), and
the exponent if there is one. -/
structure Literal where
  negative : Bool
  whole : Nat
  fraction : List Char
  exponent : Option Int
deriving DecidableEq, Repr

namespace Literal

def ofInt (n : Int) : Literal := ⟨n < 0, n.natAbs, [], none⟩

def intText (n : Int) : List Char :=
  (if n < 0 then ['-'] else []) ++ Nat.toDigits 10 n.natAbs

def text (l : Literal) : List Char :=
  (if l.negative then ['-'] else []) ++ Nat.toDigits 10 l.whole ++
    (if l.fraction.isEmpty then [] else '.' :: l.fraction) ++
    (match l.exponent with
      | none => []
      | some e => 'e' :: intText e)

end Literal

def digitsOf (cs : List Char) : List Char := cs.takeWhile Char.isDigit

def afterDigits (cs : List Char) : List Char := cs.dropWhile Char.isDigit

/-- A digit is wanted here, and `cs` begins with none. -/
def noDigit (cs : List Char) : Fault :=
  if cs.isEmpty then .valueCut else .numberMalformed

/-- The digits before the point: a zero alone, or digits that do not start with one. -/
def scanWhole (cs : List Char) : Except Fault (Nat × List Char) :=
  match digitsOf cs, afterDigits cs with
  | [], rest => .error (noDigit rest)
  | ['0'], rest => .ok (0, rest)
  | '0' :: _, _ => .error .numberMalformed
  | digits, rest => .ok (Nat.ofDigitChars 10 digits 0, rest)

def scanFraction : List Char → Except Fault (List Char × List Char)
  | '.' :: cs =>
    if (digitsOf cs).isEmpty then .error (noDigit cs) else .ok (digitsOf cs, afterDigits cs)
  | cs => .ok ([], cs)

/-- The sign of an exponent and what follows it. -/
def scanSign : List Char → Bool × List Char
  | '-' :: cs => (true, cs)
  | '+' :: cs => (false, cs)
  | cs => (false, cs)

def scanExponent : List Char → Except Fault (Option Int × List Char)
  | 'e' :: cs | 'E' :: cs =>
    let (negative, cs) := scanSign cs
    if (digitsOf cs).isEmpty then .error (noDigit cs)
    else
      let n : Int := Nat.ofDigitChars 10 (digitsOf cs) 0
      .ok (some (if negative then -n else n), afterDigits cs)
  | cs => .ok (none, cs)

/-- Reads a number from the front of a text that starts with a minus or a digit. -/
def scanLiteral (cs : List Char) : Except Fault (Literal × List Char) := do
  let negative := cs.head? == some '-'
  let (whole, cs) ← scanWhole (if negative then cs.drop 1 else cs)
  let (fraction, cs) ← scanFraction cs
  let (exponent, cs) ← scanExponent cs
  pure (⟨negative, whole, fraction, exponent⟩, cs)

/-- What a literal stands for. -/
inductive Number where
  | integer (n : Int)
  | real (x : Decimal.Double)
deriving DecidableEq, Repr

namespace Literal

/-- Appends digits to `n` as long as the result fits 64 bits; the digits left over come with it. -/
def absorb (n : Nat) : List Char → Nat × List Char
  | [] => (n, [])
  | c :: cs =>
    let next := Nat.ofDigitChars 10 [c] n
    if next < UInt64.size then absorb next cs else (n, c :: cs)

open Decimal in
/-- `m · 10 ^ exponent`, each step rounded. Below 10⁻³⁰⁸ the division is done in steps; four of them
take any 64-bit significand to zero. -/
def scale (m : Magnitude) (exponent : Int) : Nat → Option Magnitude
  | 0 => some .zero
  | steps + 1 =>
    if m.significand = 0 then some m
    else if 308 < exponent then none
    else if -308 ≤ exponent then
      if 0 ≤ exponent then do m.mul (← Magnitude.ofDecimal 1 exponent)
      else do m.div (← Magnitude.ofDecimal 1 (-exponent))
    else do scale (← m.div (← Magnitude.ofDecimal 1 308)) (exponent + 308) steps

open Decimal in
/-- The double for a literal: up to 64 bits of leading digits, scaled by the power of ten that
remains. An exponent past 31 bits makes zero, or is too large. -/
def double (l : Literal) : Except Fault Double := do
  let (wholePart, dropped) := absorb 0 (Nat.toDigits 10 l.whole)
  let (significand, unread) := absorb wholePart l.fraction
  let shift : Int := dropped.length - (l.fraction.length - unread.length)
  let exponent := l.exponent.getD 0
  if exponent.natAbs < 0x80000000 then
    match Magnitude.ofRatio significand 1 with
    | none => .error .numberTooLarge
    | some m =>
      match scale m (exponent + shift) 4 with
      | none => .error .numberTooLarge
      | some m => .ok (.finite l.negative m)
  else if 0 < exponent && significand != 0 then .error .numberTooLarge
  else .ok (.finite l.negative .zero)

/-- Whether the literal is written as an integer. -/
def isInteger (l : Literal) : Bool := l.fraction.isEmpty && l.exponent.isNone

/-- The value of a literal that is written as an integer. -/
def integer (l : Literal) : Int := if l.negative then -l.whole else l.whole

/-- An integer from -2⁶³ to 2⁶⁴ - 1 without fraction and exponent stands for itself, but `-0` and
everything else for a double. -/
def number (l : Literal) : Except Fault Number :=
  if l.isInteger && (if l.negative then l.whole != 0 && l.whole ≤ 0x8000000000000000
      else l.whole < UInt64.size) then
    .ok (.integer l.integer)
  else l.double.map .real

end Literal

end MethodIR.Json
