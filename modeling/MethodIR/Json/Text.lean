import MethodIR.Json.Fault

/-!
String literals: writing with the fewest escapes, and reading with all of them. Reading can be told
not to ask for whole surrogate pairs, as is enough for a text that is only passed over.
-/
namespace MethodIR.Json

def hexDigit (n : Nat) : Char := Nat.digitChar n

def writeChar (c : Char) : List Char :=
  match c with
  | '"' => ['\\', '"']
  | '\\' => ['\\', '\\']
  | '\x08' => ['\\', 'b']
  | '\t' => ['\\', 't']
  | '\n' => ['\\', 'n']
  | '\x0c' => ['\\', 'f']
  | '\r' => ['\\', 'r']
  | c =>
    if c.toNat < 0x20 then
      ['\\', 'u', '0', '0', hexDigit (c.toNat / 16), hexDigit (c.toNat % 16)]
    else [c]

/-- The literal of a text: quotes, backslashes and controls are escaped, nothing else. -/
def writeText (s : String) : List Char := '"' :: (s.toList.flatMap writeChar ++ ['"'])

def hexValue? (c : Char) : Option Nat :=
  if c.isDigit then some (c.toNat - '0'.toNat)
  else if 'a' ≤ c ∧ c ≤ 'f' then some (c.toNat - 'a'.toNat + 10)
  else if 'A' ≤ c ∧ c ≤ 'F' then some (c.toNat - 'A'.toNat + 10)
  else none

def simpleEscape? : Char → Option Char
  | '"' => some '"'
  | '\\' => some '\\'
  | '/' => some '/'
  | 'b' => some '\x08'
  | 'f' => some '\x0c'
  | 'n' => some '\n'
  | 'r' => some '\r'
  | 't' => some '\t'
  | _ => none

/-- Where a reader stands inside a literal. `first` is the first half of a surrogate pair. -/
inductive Place where
  | plain
  | escape
  | hex (first : Option Nat) (seen : Nat) (value : Nat)
  | pairBackslash (first : Nat)
  | pairLetter (first : Nat)
deriving DecidableEq, Repr

def isFirstHalf (n : Nat) : Bool := 0xd800 ≤ n && n < 0xdc00

def isSecondHalf (n : Nat) : Bool := 0xdc00 ≤ n && n < 0xe000

/-- Four hexadecimal digits are read: the next place, and the character if they complete one. -/
def Place.completeHex (pairs : Bool) (first : Option Nat) (n : Nat) :
    Except Fault (Place × Option Char) :=
  if !pairs then .ok (.plain, none)
  else match first with
    | none =>
      if isSecondHalf n then .error .surrogateAlone
      else if isFirstHalf n then .ok (.pairBackslash n, none)
      else .ok (.plain, some (Char.ofNat n))
    | some n₁ =>
      if isSecondHalf n then
        .ok (.plain, some (Char.ofNat (0x10000 + (n₁ - 0xd800) * 0x400 + (n - 0xdc00))))
      else .error .surrogateAlone

/-- Four octets after `\u` are wanted whole before they are looked at. -/
def hexFault (seen : Nat) (rest : List Char) : Fault :=
  if seen + (String.ofList rest).utf8ByteSize < 4 then .stringCut else .escapeUnknown

/-- Reads from a place inside a literal up to the closing quote. -/
def scanTextFrom (pairs : Bool) : Place → List Char → Except Fault (List Char × List Char)
  | _, [] => .error .stringCut
  | .plain, c :: cs =>
    if c = '"' then .ok ([], cs)
    else if c = '\\' then scanTextFrom pairs .escape cs
    else if c.toNat < 0x20 then .error .controlCharacter
    else do
      let (text, rest) ← scanTextFrom pairs .plain cs
      pure (c :: text, rest)
  | .escape, c :: cs =>
    if c = 'u' then scanTextFrom pairs (.hex none 0 0) cs
    else match simpleEscape? c with
      | none => .error .escapeUnknown
      | some d => do
        let (text, rest) ← scanTextFrom pairs .plain cs
        pure (d :: text, rest)
  | .hex first seen value, c :: cs =>
    match hexValue? c with
    | none => .error (hexFault seen (c :: cs))
    | some d =>
      if seen < 3 then scanTextFrom pairs (.hex first (seen + 1) (value * 16 + d)) cs
      else do
        let (place, complete) ← Place.completeHex pairs first (value * 16 + d)
        let (text, rest) ← scanTextFrom pairs place cs
        pure (complete.toList ++ text, rest)
  | .pairBackslash first, c :: cs =>
    if c = '\\' then scanTextFrom pairs (.pairLetter first) cs else .error .surrogateCut
  | .pairLetter first, c :: cs =>
    if c = 'u' then scanTextFrom pairs (.hex (some first) 0 0) cs else .error .surrogateCut

/-- Reads the text of a literal whose opening quote has been read. -/
def scanText (cs : List Char) : Except Fault (String × List Char) := do
  let (text, rest) ← scanTextFrom true .plain cs
  pure (String.ofList text, rest)

/-- Passes over a literal whose opening quote has been read. -/
def skipText (cs : List Char) : Except Fault (List Char) := do
  let (_, rest) ← scanTextFrom false .plain cs
  pure rest

end MethodIR.Json
