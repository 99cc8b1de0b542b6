import MethodIR.Decimal.Shortest

/-! How a double is written: its shortest digits, with a point or in scientific form. -/
namespace MethodIR.Decimal

/-- Exponents of the leading digit from `lowest` to `highest` are written out with a point, the
others in scientific form; `tie` is for a value halfway between two shortest decimals. -/
structure Style where
  lowest : Option Int
  highest : Option Int
  tie : Tie

/-- Plain from 1e-5 up to below 1e16, and an even last digit halfway. -/
def Style.bounded : Style := ⟨some (-5), some 15, .toEven⟩

/-- Always plain, whatever the number of zeros, and away from zero halfway. -/
def Style.plain : Style := ⟨none, none, .up⟩

def Style.writesOut (style : Style) (lead : Int) : Bool :=
  style.lowest.all (· ≤ lead) && style.highest.all (lead ≤ ·)

/-- The digits without trailing zeros, and the exponent of the first of them. -/
def Scientific.leading (s : Scientific) : List Char × Int :=
  let cs := Nat.toDigits 10 s.digits
  ((cs.reverse.dropWhile (· == '0')).reverse, s.exponent + cs.length - 1)

def writtenOut (digits : List Char) (lead : Int) : List Char :=
  if lead < 0 then "0.".toList ++ List.replicate (-lead - 1).toNat '0' ++ digits
  else
    let n := lead.toNat + 1
    if digits.length ≤ n then digits ++ List.replicate (n - digits.length) '0' ++ ".0".toList
    else digits.take n ++ '.' :: digits.drop n

/-- An exponent with its sign. -/
def exponentText (n : Int) : List Char :=
  (if n < 0 then '-' else '+') :: Nat.toDigits 10 n.natAbs

def scientific (digits : List Char) (lead : Int) : List Char :=
  digits.take 1 ++ (if digits.length ≤ 1 then [] else '.' :: digits.drop 1) ++
    'e' :: exponentText lead

def Magnitude.text (style : Style) (m : Magnitude) : List Char :=
  if m.significand = 0 then "0.0".toList
  else
    let (digits, lead) := (m.shortest style.tie).leading
    if style.writesOut lead then writtenOut digits lead else scientific digits lead

def Double.text (style : Style) : Double → String
  | .finite negative m => String.ofList ((if negative then ['-'] else []) ++ m.text style)
  | .infinite negative => if negative then "-inf" else "inf"
  | .nan => "NaN"

end MethodIR.Decimal
