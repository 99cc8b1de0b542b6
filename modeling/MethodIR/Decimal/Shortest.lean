import MethodIR.Decimal.Double

/-! The shortest decimal that reads back as a given magnitude. -/
namespace MethodIR.Decimal

/-- `digits · 10 ^ exponent`. -/
structure Scientific where
  digits : Nat
  exponent : Int
deriving DecidableEq, Repr

namespace Magnitude

/-- Half the distance to the next magnitude below, in quarter units. -/
def gapBelow (m : Magnitude) : Nat :=
  if m.significand = 0x10000000000000 && m.exponent != -1074 then 1 else 2

/-- Whether `num / den` reads back as `m`: it lies in the interval of all values that round to `m`,
whose ends belong to it when the significand is even. -/
def readsBack (m : Magnitude) (num den : Nat) : Bool :=
  let (n, d) := inUnits num den (m.exponent - 2)
  let low := (4 * m.significand - m.gapBelow) * d
  let high := (4 * m.significand + 2) * d
  if m.significand % 2 = 0 then low ≤ n && n ≤ high else low < n && n < high

/-- `digits · 10 ^ exponent` as a ratio. -/
def decimalRatio (digits : Nat) (exponent : Int) : Nat × Nat :=
  if 0 ≤ exponent then (digits * Nat.pow 10 exponent.toNat, 1)
  else (digits, Nat.pow 10 (-exponent).toNat)

/-- The number of decimal digits before the point of `num / den`, negative or zero below one. -/
def pointPosition (num den : Nat) : Int :=
  if den ≤ num then (Nat.toDigits 10 (num / den)).length
  else 1 - (Nat.toDigits 10 ((den - 1) / num)).length

/-- The better of the two neighbours of `m` on the grid of multiples of `10 ^ exponent`, among
those that read back. -/
def onGrid? (tie : Tie) (m : Magnitude) (exponent : Int) : Option Scientific :=
  let (num, den) := m.toRatio
  let (stepNum, stepDen) := decimalRatio 1 exponent
  let n := num * stepDen
  let d := den * stepNum
  let below := n / d
  let fits (digits : Nat) : Bool :=
    let (a, b) := decimalRatio digits exponent
    digits != 0 && m.readsBack a b
  match fits below, fits (below + 1) with
  | true, true => some ⟨divNearest tie n d, exponent⟩
  | true, false => some ⟨below, exponent⟩
  | false, true => some ⟨below + 1, exponent⟩
  | false, false => none

/-- The fewest digits that read back as the magnitude, and of those the nearest. Two that are
equally near have the magnitude halfway between them, and `tie` chooses. -/
def shortest (tie : Tie) (m : Magnitude) : Scientific :=
  let position := pointPosition m.toRatio.1 m.toRatio.2
  let tried := (List.range 17).findSome? fun n : Nat => m.onGrid? tie (position - (n + 1))
  tried.getD ⟨m.significand, 0⟩

end Magnitude

end MethodIR.Decimal
