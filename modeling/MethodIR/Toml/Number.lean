import MethodIR.Toml.Lexeme

/-! Numbers, dates and times of TOML. -/
namespace MethodIR.Toml

/-- Digits of a class, with single underscores between them. -/
def scanDigits (isDigit : Char → Bool) : Reader (List Char)
  | [] => none
  | c :: cs =>
    if isDigit c then
      match cs with
      | '_' :: rest => do
        let (digits, rest) ← scanDigits isDigit rest
        pure (c :: digits, rest)
      | d :: rest =>
        if isDigit d then do
          let (digits, rest) ← scanDigits isDigit (d :: rest)
          pure (c :: digits, rest)
        else some ([c], d :: rest)
      | [] => some ([c], [])
    else none

def decimalDigits : Reader (List Char) := scanDigits Char.isDigit

/-- The digits before the point: a zero stands alone. -/
def scanWhole : Reader (List Char)
  | '0' :: cs => some (['0'], cs)
  | cs => decimalDigits cs

def scanSign : List Char → Bool × List Char
  | '-' :: cs => (true, cs)
  | '+' :: cs => (false, cs)
  | cs => (false, cs)

/-- The digits after a point, if there is one. -/
def scanFraction : Reader (List Char)
  | '.' :: cs => decimalDigits cs
  | cs => some ([], cs)

def scanExponent : Reader Int
  | 'e' :: cs | 'E' :: cs => do
    let (negative, cs) := scanSign cs
    let (digits, cs) ← decimalDigits cs
    let n : Int := Nat.ofDigitChars 10 digits 0
    pure (if negative then -n else n, cs)
  | cs => some (0, cs)

def fits64 (n : Int) : Bool := Int64.minValue.toInt ≤ n && n ≤ Int64.maxValue.toInt

/-- A real number; too large a positive one is refused, a negative one becomes infinite. -/
def real? (negative : Bool) (digits : List Char) (exponent : Int) : Option Decimal.Double :=
  match Decimal.Magnitude.ofDecimal (Nat.ofDigitChars 10 digits 0) exponent with
  | some m => some (.finite negative m)
  | none => if negative then some (.infinite true) else none

/-- A number in decimal digits. -/
def scanDecimal (cs : List Char) : Option (Value × List Char) := do
  let (negative, cs) := scanSign cs
  match cs with
  | 'i' :: 'n' :: 'f' :: cs => pure (.real (.infinite negative), cs)
  | 'n' :: 'a' :: 'n' :: cs => pure (.real .nan, cs)
  | cs =>
    let (whole, after) ← scanWhole cs
    let (fraction, cs) ← scanFraction after
    let (exponent, cs) ← scanExponent cs
    if !after.head?.any ['.', 'e', 'E'].contains then
      let n : Int := Nat.ofDigitChars 10 whole 0
      let n := if negative then -n else n
      if fits64 n then pure (.integer n, cs) else none
    else do
      let x ← real? negative (whole ++ fraction) (exponent - fraction.length)
      pure (.real x, cs)

/-- An integer in digits of another base. -/
def scanRadix (base : Nat) (cs : List Char) : Option (Value × List Char) := do
  let isDigit (c : Char) : Bool := (hexValue? c).any (· < base)
  let (digits, cs) ← scanDigits isDigit cs
  let n : Nat := (digits.filterMap hexValue?).foldl (fun n d => base * n + d) 0
  if fits64 n then pure (.integer n, cs) else none

/-- A number of exactly `count` digits. -/
def scanFixed (count : Nat) (cs : List Char) : Option (Nat × List Char) :=
  let digits := cs.take count
  if digits.length = count && digits.all Char.isDigit then
    some (Nat.ofDigitChars 10 digits 0, cs.drop count)
  else none

/-- A two-digit number of a range. -/
def scanTwo (least greatest : Nat) (cs : List Char) : Option (Nat × List Char) := do
  let (n, cs) ← scanFixed 2 cs
  if least ≤ n && n ≤ greatest then some (n, cs) else none

def scanChar (wanted : Char) : List Char → Option (List Char)
  | c :: cs => if c = wanted then some cs else none
  | [] => none

def daysIn (year month : Nat) : Nat :=
  if month = 2 then if year % 4 = 0 && (year % 100 != 0 || year % 400 = 0) then 29 else 28
  else if [4, 6, 9, 11].contains month then 30
  else 31

/-- The rest of a date whose year has been read. -/
def scanDate (year : Nat) (cs : List Char) : Option (List Char) := do
  let (month, cs) ← scanTwo 1 12 (← scanChar '-' cs)
  let (_, cs) ← scanTwo 1 (daysIn year month) (← scanChar '-' cs)
  pure cs

/-- A time of day; a fraction of a second has at least one digit. -/
def scanTime (cs : List Char) : Option (List Char) := do
  let (_, cs) ← scanTwo 0 23 cs
  let (_, cs) ← scanTwo 0 59 (← scanChar ':' cs)
  let (_, cs) ← scanTwo 0 60 (← scanChar ':' cs)
  match cs with
  | '.' :: c :: rest => if c.isDigit then some (rest.dropWhile Char.isDigit) else some cs
  | cs => some cs

/-- A distance from universal time, if there is one. -/
def scanOffset (cs : List Char) : Option (List Char) := do
  match cs with
  | 'Z' :: cs | 'z' :: cs => pure cs
  | '+' :: cs | '-' :: cs => do
    let (_, cs) ← scanTwo 0 23 cs
    let (_, cs) ← scanTwo 0 59 (← scanChar ':' cs)
    pure cs
  | cs => pure cs

/-- The time that may follow a date. Without one a blank does not belong to the date. -/
def scanAfterDate : List Char → Option (List Char)
  | c :: cs =>
    if c = 'T' || c = 't' || c = ' ' then
      match scanTwo 0 23 cs with
      | some (_, ':' :: _) => do scanOffset (← scanTime cs)
      | _ => some (c :: cs)
    else some (c :: cs)
  | [] => some []

/-- A number, a date or a time. -/
def scanNumber (cs : List Char) : Option (Value × List Char) :=
  match scanFixed 4 cs, scanTwo 0 23 cs with
  | some (year, '-' :: rest), _ => do
    pure (.time, ← scanAfterDate (← scanDate year ('-' :: rest)))
  | _, some (_, ':' :: _) => do pure (.time, ← scanTime cs)
  | _, _ =>
    match cs with
    | '0' :: 'x' :: cs => scanRadix 16 cs
    | '0' :: 'o' :: cs => scanRadix 8 cs
    | '0' :: 'b' :: cs => scanRadix 2 cs
    | cs => scanDecimal cs

end MethodIR.Toml
