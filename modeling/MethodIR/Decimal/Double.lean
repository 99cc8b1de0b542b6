/-!
Double-precision numbers as exact values: a sign and a magnitude `m · 2 ^ q`, and the rounding of a
ratio of naturals to the nearest of them, ties to an even `m`.
-/
namespace MethodIR.Decimal

/-- A finite magnitude `significand · 2 ^ exponent`. Those that `ofRatio` gives have
`significand < 2 ^ 53`, `-1074 ≤ exponent ≤ 971`, and are normal wherever the range allows. -/
structure Magnitude where
  significand : Nat
  exponent : Int
deriving DecidableEq, Repr

inductive Double where
  | finite (negative : Bool) (magnitude : Magnitude)
  | infinite (negative : Bool)
  | nan
deriving DecidableEq, Repr

/-- Where a value halfway between two naturals goes. -/
inductive Tie where
  | toEven
  | up
deriving DecidableEq, Repr

/-- Whether the value halfway above `q` goes down to it. -/
def Tie.staysAt : Tie → Nat → Bool
  | .toEven, q => q % 2 == 0
  | .up, _ => false

namespace Magnitude

def zero : Magnitude := ⟨0, -1074⟩

/-- The quotient rounded to the nearest natural. -/
def divNearest (tie : Tie) (num den : Nat) : Nat :=
  let q := num / den
  let r := 2 * (num % den)
  if r < den || (r == den && tie.staysAt q) then q else q + 1

/-- `num / den` in units of `2 ^ q`, again as a ratio. -/
def inUnits (num den : Nat) (q : Int) : Nat × Nat :=
  if 0 ≤ q then (num, den <<< q.toNat) else (num <<< (-q).toNat, den)

/-- The unit of the magnitudes around `num / den`. -/
def unitExponent (num den : Nat) : Int :=
  let guess : Int := (num.log2 : Int) - (den.log2 : Int) - 53
  let (n, d) := inUnits num den guess
  max (-1074) (if n / d < 0x20000000000000 then guess else guess + 1)

/-- The magnitude nearest to `num / den`, or `none` when it lies past the largest one. -/
def ofRatio (num den : Nat) : Option Magnitude :=
  if num = 0 then some zero
  else
    let q := unitExponent num den
    let (n, d) := inUnits num den q
    let m := divNearest .toEven n d
    let r : Magnitude := if m = 0x20000000000000 then ⟨0x10000000000000, q + 1⟩ else ⟨m, q⟩
    if r.exponent ≤ 971 then some r else none

/-- The value as a ratio. -/
def toRatio (m : Magnitude) : Nat × Nat :=
  if 0 ≤ m.exponent then (m.significand <<< m.exponent.toNat, 1)
  else (m.significand, 1 <<< (-m.exponent).toNat)

def mul (a b : Magnitude) : Option Magnitude :=
  ofRatio (a.toRatio.1 * b.toRatio.1) (a.toRatio.2 * b.toRatio.2)

def div (a b : Magnitude) : Option Magnitude :=
  ofRatio (a.toRatio.1 * b.toRatio.2) (a.toRatio.2 * b.toRatio.1)

/-- The magnitude nearest to `digits · 10 ^ exponent`. Powers that no magnitude reaches are not
computed. -/
def ofDecimal (digits : Nat) (exponent : Int) : Option Magnitude :=
  if digits = 0 then some zero
  else if 400 < exponent then none
  else if exponent < -400 - (Nat.toDigits 10 digits).length then some zero
  else if 0 ≤ exponent then ofRatio (digits * Nat.pow 10 exponent.toNat) 1
  else ofRatio digits (Nat.pow 10 (-exponent).toNat)

end Magnitude

end MethodIR.Decimal
