import MethodIR.Toml.Value

/-! Blanks, comments, strings and keys of TOML. A reader takes a lexeme off the front of a text. -/
namespace MethodIR.Toml

abbrev Reader (α : Type) := List Char → Option (α × List Char)

def isBlank (c : Char) : Bool := c == ' ' || c == '\t'

/-- Characters of comments and strings: no controls but the tab. -/
def isPlain (c : Char) : Bool := c == '\t' || (0x20 ≤ c.toNat && c.toNat != 0x7f)

def skipBlanks (cs : List Char) : List Char := cs.dropWhile isBlank

def newline? : List Char → Option (List Char)
  | '\n' :: cs => some cs
  | '\r' :: '\n' :: cs => some cs
  | _ => none

/-- What follows a comment, if there is one. -/
def skipComment : List Char → List Char
  | '#' :: cs => cs.dropWhile isPlain
  | cs => cs

/-- The rest of a line may hold blanks and a comment. -/
def lineEnd (cs : List Char) : Option (List Char) :=
  match skipComment (skipBlanks cs) with
  | [] => some []
  | cs => newline? cs

/-- Passes over blanks, comments and new lines, as may stand between the items of a list. A comment,
in which the text begins if `inComment`, ends with its line. -/
def skipLines (inComment : Bool) : List Char → Option (List Char)
  | '\n' :: cs => skipLines false cs
  | '\r' :: '\n' :: cs => skipLines false cs
  | '\r' :: _ => none
  | [] => if inComment then none else some []
  | c :: cs =>
    if inComment then if isPlain c then skipLines true cs else none
    else if c = '#' then skipLines true cs
    else if isBlank c then skipLines false cs
    else some (c :: cs)

def hexValue? (c : Char) : Option Nat :=
  if c.isDigit then some (c.toNat - '0'.toNat)
  else if 'a' ≤ c ∧ c ≤ 'f' then some (c.toNat - 'a'.toNat + 10)
  else if 'A' ≤ c ∧ c ≤ 'F' then some (c.toNat - 'A'.toNat + 10)
  else none

/-- A character by the number that `count` hexadecimal digits write. -/
def scanCodePoint (count : Nat) (cs : List Char) : Option (Char × List Char) := do
  let digits ← (cs.take count).mapM hexValue?
  let n := digits.foldl (fun n d => 16 * n + d) 0
  if digits.length = count && (n < 0xd800 || (0xdfff < n && n < 0x110000)) then
    some (Char.ofNat n, cs.drop count)
  else none

/-- What a backslash begins. -/
def scanEscape : Reader Char
  | '"' :: cs => some ('"', cs)
  | '\\' :: cs => some ('\\', cs)
  | 'b' :: cs => some ('\x08', cs)
  | 'f' :: cs => some ('\x0c', cs)
  | 'n' :: cs => some ('\n', cs)
  | 'r' :: cs => some ('\r', cs)
  | 't' :: cs => some ('\t', cs)
  | 'u' :: cs => scanCodePoint 4 cs
  | 'U' :: cs => scanCodePoint 8 cs
  | _ => none

/-- The rest of a string on one line. -/
def scanBasic : Nat → Reader (List Char)
  | 0, _ => none
  | steps + 1, cs =>
    match cs with
    | '"' :: cs => some ([], cs)
    | '\\' :: cs => do
      let (c, cs) ← scanEscape cs
      let (text, cs) ← scanBasic steps cs
      pure (c :: text, cs)
    | c :: cs =>
      if isPlain c then do
        let (text, cs) ← scanBasic steps cs
        pure (c :: text, cs)
      else none
    | [] => none

/-- The rest of a string on one line in which nothing is escaped. -/
def scanLiteral (cs : List Char) : Option (List Char × List Char) :=
  let text := cs.takeWhile fun c => isPlain c && c != '\''
  match cs.drop text.length with
  | '\'' :: cs => some (text, cs)
  | _ => none

/-- Reads a run of quotes: up to two belong to the string, three end it, and up to two may stand
before those three. -/
def closing? (quote : Char) (cs : List Char) : Option (List Char × Option (List Char)) :=
  let n := (cs.takeWhile (· == quote)).length
  let cs := cs.drop n
  if n < 3 then some (List.replicate n quote, none)
  else if n < 6 then some (List.replicate (n - 3) quote, some cs)
  else none

/-- Passes over blanks and new lines. -/
def skipWhite : List Char → List Char
  | '\r' :: '\n' :: cs => skipWhite cs
  | '\n' :: cs | ' ' :: cs | '\t' :: cs => skipWhite cs
  | cs => cs

/-- A backslash at the end of a line takes away all blanks up to the next other character. -/
def skipContinuation? (cs : List Char) : Option (List Char) :=
  (newline? (skipBlanks cs)).map skipWhite

/-- The rest of a string of several lines, with escapes if `escapes`. -/
def scanLong (quote : Char) (escapes : Bool) : Nat → Reader (List Char)
  | 0, _ => none
  | steps + 1, cs =>
    match cs with
    | [] => none
    | c :: rest =>
      if c = quote then
        match closing? quote cs with
        | none => none
        | some (text, some rest) => some (text, rest)
        | some (text, none) => do
          let (more, rest) ← scanLong quote escapes steps (cs.drop text.length)
          pure (text ++ more, rest)
      else if c = '\\' && escapes then
        match skipContinuation? rest with
        | some rest => scanLong quote escapes steps rest
        | none => do
          let (d, rest) ← scanEscape rest
          let (text, rest) ← scanLong quote escapes steps rest
          pure (d :: text, rest)
      else
        match newline? cs with
        | some rest => do
          let (text, rest) ← scanLong quote escapes steps rest
          pure ('\n' :: text, rest)
        | none =>
          if isPlain c then do
            let (text, rest) ← scanLong quote escapes steps rest
            pure (c :: text, rest)
          else none

/-- A new line right after three opening quotes is no part of the string. -/
def dropNewline (cs : List Char) : List Char := (newline? cs).getD cs

/-- A string of any of the four forms. -/
def scanString (cs : List Char) : Option (List Char × List Char) :=
  let steps := cs.length
  match cs with
  | '"' :: '"' :: '"' :: cs => scanLong '"' true steps (dropNewline cs)
  | '\'' :: '\'' :: '\'' :: cs => scanLong '\'' false steps (dropNewline cs)
  | '"' :: cs => scanBasic steps cs
  | '\'' :: cs => scanLiteral cs
  | _ => none

def isBareKey (c : Char) : Bool := c.isAlphanum || c == '_' || c == '-'

/-- One part of a key. -/
def scanSimpleKey : Reader String
  | '"' :: cs => (scanBasic (cs.length + 1) cs).map fun (s, cs) => (String.ofList s, cs)
  | '\'' :: cs => (scanLiteral cs).map fun (s, cs) => (String.ofList s, cs)
  | cs =>
    let s := cs.takeWhile isBareKey
    if s.isEmpty then none else some (String.ofList s, cs.drop s.length)

/-- The parts of a key, with blanks around the dots. -/
def scanParts : Nat → Reader (List String)
  | 0, _ => none
  | steps + 1, cs => do
    let (part, cs) ← scanSimpleKey (skipBlanks cs)
    match skipBlanks cs with
    | '.' :: cs =>
      let (parts, cs) ← scanParts steps cs
      pure (part :: parts, cs)
    | cs => pure ([part], cs)

/-- Values and keys nest less deep than this. -/
def depthLimit : Nat := 80

/-- A key: the parts on the way and the last one. -/
def scanKey (cs : List Char) : Option ((List String × String) × List Char) := do
  let (parts, cs) ← scanParts (cs.length + 1) cs
  if parts.length < depthLimit then do
    let last ← parts.getLast?
    pure ((parts.dropLast, last), cs)
  else none

end MethodIR.Toml
