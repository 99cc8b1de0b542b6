import MethodIR.Json.Value

/-!
A text read as a JSON document, as far as it can be: a tree of values in which the places that
cannot be read are marked with their faults. Reading goes on behind a flaw that does not matter to a
reader who only passes over the value. `Document.value` reads a tree strictly and with a limit on
nesting, `Document.skip` passes over it.
-/
namespace MethodIR.Json

/-- What ends the items of a list. -/
inductive ListEnd where
  | closed
  | comma
  | stray
  | cut
deriving DecidableEq, Repr

/-- What ends the members of an object; `comma` and `commaCut` follow a comma. -/
inductive ObjectEnd where
  | closed
  | comma
  | commaCut
  | stray
  | cut
deriving DecidableEq, Repr

/-- What stands where the key of a member belongs. -/
inductive Key where
  | name (s : String)
  | flawed (fault : Fault) (skipped : Option Fault)
  | absent
deriving DecidableEq, Repr

inductive Document where
  /-- No value begins here. -/
  | missing (fault : Fault)
  /-- A value other than a string begins here and is broken; passed over, it has the fault
  `skipped`. -/
  | broken (fault : Fault) (skipped : Fault)
  /-- A string with a fault, which may be none when passed over. -/
  | brokenText (fault : Fault) (skipped : Option Fault)
  | null
  | boolean (b : Bool)
  | number (l : Literal)
  | text (s : String)
  | list (items : List Document) (ending : ListEnd)
  | object (members : List (Key × Document)) (ending : ObjectEnd)

def ListEnd.check : ListEnd → Except Fault Unit
  | .closed => .ok ()
  | .comma => .error .trailingComma
  | .stray => .error .listCommaExpected
  | .cut => .error .listCut

def ListEnd.skip : ListEnd → Except Fault Unit
  | .comma => .error .valueExpected
  | ending => ending.check

def ObjectEnd.check : ObjectEnd → Except Fault Unit
  | .closed => .ok ()
  | .comma => .error .trailingComma
  | .commaCut => .error .valueCut
  | .stray => .error .objectCommaExpected
  | .cut => .error .objectCut

def ObjectEnd.skip : ObjectEnd → Except Fault Unit
  | .comma => .error .keyExpected
  | .commaCut => .error .objectCut
  | ending => ending.check

def Key.read : Key → Except Fault String
  | .name s => .ok s
  | .flawed fault _ => .error fault
  | .absent => .error .keyExpected

def Key.skip : Key → Except Fault Unit
  | .name _ | .flawed _ none => .ok ()
  | .flawed _ (some fault) => .error fault
  | .absent => .error .keyExpected

def isBlank (c : Char) : Bool := c == ' ' || c == '\n' || c == '\t' || c == '\r'

def skipBlanks (cs : List Char) : List Char := cs.dropWhile isBlank

namespace Document

mutual

/-- Passes over a value, however deep it is. -/
def skip : Document → Except Fault Unit
  | .missing fault => .error fault
  | .broken _ skipped => .error skipped
  | .brokenText _ skipped =>
    match skipped with
    | some fault => .error fault
    | none => .ok ()
  | .null | .boolean _ | .number _ | .text _ => .ok ()
  | .list items ending => do
    skipItems items
    ending.skip
  | .object members ending => do
    skipMembers members
    ending.skip

def skipItems : List Document → Except Fault Unit
  | [] => .ok ()
  | d :: ds => do
    skip d
    skipItems ds

def skipMembers : List (Key × Document) → Except Fault Unit
  | [] => .ok ()
  | (key, d) :: ms => do
    key.skip
    skip d
    skipMembers ms

end

/-- Reads a value strictly. At most `levels` lists and objects may contain one another. -/
def value : Nat → Document → Except Fault Json
  | _, .missing fault | _, .broken fault _ | _, .brokenText fault _ => .error fault
  | _, .null => .ok .null
  | _, .boolean b => .ok (.boolean b)
  | _, .number l => do
    let _ ← l.number
    pure (.number l)
  | _, .text s => .ok (.text s)
  | 0, .list _ _ | 0, .object _ _ => .error .tooDeep
  | levels + 1, .list items ending => do
    let items ← items.mapM (value levels)
    ending.check
    pure (.list items)
  | levels + 1, .object members ending => do
    let members ← members.mapM fun (key, d) => do
      let key ← key.read
      let j ← value levels d
      pure (key, j)
    ending.check
    pure (.object members)

mutual

/-- The document of a value. -/
def ofJson : Json → Document
  | .null => .null
  | .boolean b => .boolean b
  | .number l => .number l
  | .text s => .text s
  | .list items => .list (ofItems items) .closed
  | .object members => .object (ofMembers members) .closed

def ofItems : List Json → List Document
  | [] => []
  | j :: js => ofJson j :: ofItems js

def ofMembers : List (String × Json) → List (Key × Document)
  | [] => []
  | (k, j) :: ms => (.name k, ofJson j) :: ofMembers ms

end

/-- Reads the rest of a word that stands for `d`. -/
def scanWord (d : Document) : List Char → List Char → Document × Option (List Char)
  | [], cs => (d, some cs)
  | _ :: _, [] => (.broken .valueCut .valueCut, none)
  | w :: ws, c :: cs =>
    if w = c then scanWord d ws cs else (.broken .wordExpected .wordExpected, none)

def scanNumber (cs : List Char) : Document × Option (List Char) :=
  match scanLiteral cs with
  | .ok (l, rest) => (.number l, some rest)
  | .error fault => (.broken fault .numberMalformed, none)

/-- Reads a string whose opening quote has been read. -/
def scanString (cs : List Char) : Document × Option (List Char) :=
  match scanText cs with
  | .ok (s, rest) => (.text s, some rest)
  | .error fault =>
    match skipText cs with
    | .ok rest => (.brokenText fault none, some rest)
    | .error skipped => (.brokenText fault (some skipped), none)

/-- Reads a key whose opening quote has been read. -/
def scanKey (cs : List Char) : Key × Option (List Char) :=
  match scanText cs with
  | .ok (s, rest) => (.name s, some rest)
  | .error fault =>
    match skipText cs with
    | .ok rest => (.flawed fault none, some rest)
    | .error skipped => (.flawed fault (some skipped), none)

mutual

/-- Reads a value from the front of a text, and gives what follows it unless the text cannot be read
on from there. The first argument bounds the number of steps. -/
def scan : Nat → List Char → Document × Option (List Char)
  | 0, _ => (.missing .valueCut, none)
  | steps + 1, cs =>
    match skipBlanks cs with
    | [] => (.missing .valueCut, none)
    | c :: rest =>
      if c = 'n' then scanWord .null "ull".toList rest
      else if c = 't' then scanWord (.boolean true) "rue".toList rest
      else if c = 'f' then scanWord (.boolean false) "alse".toList rest
      else if c = '-' || c.isDigit then scanNumber (c :: rest)
      else if c = '"' then scanString rest
      else if c = '[' then
        match scanItems steps true rest with
        | (items, ending, rest) => (.list items ending, rest)
      else if c = '\x7b' then
        match scanMembers steps true rest with
        | (members, ending, rest) => (.object members ending, rest)
      else (.missing .valueExpected, none)

/-- Reads the items of a list from the bracket or the item before on. -/
def scanItems : Nat → Bool → List Char → List Document × ListEnd × Option (List Char)
  | 0, _, _ => ([], .cut, none)
  | steps + 1, first, cs =>
    match skipBlanks cs with
    | [] => ([], .cut, none)
    | c :: rest =>
      if c = ']' then ([], .closed, some rest)
      else if first then scanItem steps (c :: rest)
      else if c = ',' then
        match skipBlanks rest with
        | ']' :: _ => ([], .comma, none)
        | rest => scanItem steps rest
      else ([], .stray, none)

/-- Reads one item and those after it. -/
def scanItem : Nat → List Char → List Document × ListEnd × Option (List Char)
  | 0, _ => ([], .cut, none)
  | steps + 1, cs =>
    match scan steps cs with
    | (d, none) => ([d], .cut, none)
    | (d, some rest) =>
      match scanItems steps false rest with
      | (ds, ending, rest) => (d :: ds, ending, rest)

/-- Reads the members of an object from the brace or the member before on. -/
def scanMembers : Nat → Bool → List Char → List (Key × Document) × ObjectEnd × Option (List Char)
  | 0, _, _ => ([], .cut, none)
  | steps + 1, first, cs =>
    match skipBlanks cs with
    | [] => ([], .cut, none)
    | c :: rest =>
      if c = '\x7d' then ([], .closed, some rest)
      else if first then scanMember steps (c :: rest)
      else if c = ',' then
        match skipBlanks rest with
        | [] => ([], .commaCut, none)
        | c :: rest => if c = '\x7d' then ([], .comma, none) else scanMember steps (c :: rest)
      else ([], .stray, none)

/-- Reads one member and those after it. -/
def scanMember : Nat → List Char → List (Key × Document) × ObjectEnd × Option (List Char)
  | 0, _ => ([], .cut, none)
  | steps + 1, cs =>
    match cs with
    | '"' :: rest =>
      match scanKey rest with
      | (key, none) => ([(key, .missing .valueCut)], .cut, none)
      | (key, some rest) =>
        match skipBlanks rest with
        | [] => ([(key, .missing .objectCut)], .cut, none)
        | ':' :: rest =>
          match scan steps rest with
          | (d, none) => ([(key, d)], .cut, none)
          | (d, some rest) =>
            match scanMembers steps false rest with
            | (ms, ending, rest) => ((key, d) :: ms, ending, rest)
        | _ => ([(key, .missing .colonExpected)], .cut, none)
    | cs => ([(.absent, (scan steps cs).1)], .cut, none)

end

/-- The document at the front of a text, and what follows it. Each character is worth at most three
steps. -/
def ofChars (cs : List Char) : Document × List Char :=
  match scan (3 * cs.length + 3) cs with
  | (d, rest) => (d, rest.getD [])

end Document

end MethodIR.Json
