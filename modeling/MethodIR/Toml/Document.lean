import MethodIR.Toml.Number

/-!
TOML documents. Statements are read line by line and put together into one table; a text with a key
or a table that is defined twice is no document.
-/
namespace MethodIR.Toml

namespace Entries

/-- Puts a value in the place of the one under a key, or at the end. -/
def set (key : String) (v : Value) : Entries → Entries
  | [] => [(key, v)]
  | (k, w) :: es => if k = key then (k, v) :: es else (k, w) :: set key v es

def erase (key : String) (es : Entries) : Entries := es.filter fun (k, _) => k != key

/-- Defines a key. -/
def define (key : String) (v : Value) (es : Entries) : Option Entries :=
  if (es.lookup key).isSome then none else some (es ++ [(key, v)])

/-- Changes the last of several tables. -/
def changeLast (change : Entries → Option Entries) (elements : List Entries) :
    Option (List Entries) := do
  let last ← elements.getLast?
  pure (elements.dropLast ++ [← change last])

/-- Defines a dotted key. The table that gets it must be one that dotted keys made. -/
def defineDotted : List String → String → Value → Entries → Option Entries
  | [], key, v, es => define key v es
  | part :: path, key, v, es =>
    match es.lookup part with
    | none => do
      pure (es ++ [(part, .table .dotted (← defineDotted path key v []))])
    | some (.table .dotted inner) => do
      pure (es.set part (.table .dotted (← defineDotted path key v inner)))
    | some (.table .passed inner) =>
      if path.isEmpty then none
      else do pure (es.set part (.table .passed (← defineDotted path key v inner)))
    | some (.tables elements) =>
      if path.isEmpty then none
      else do pure (es.set part (.tables (← changeLast (defineDotted path key v) elements)))
    | some _ => none

/-- Changes the table that the first parts of a header lead to, and makes it if it is not there. -/
def changeAt (change : Entries → Option Entries) : List String → Entries → Option Entries
  | [], es => change es
  | part :: path, es =>
    match es.lookup part with
    | none => do pure (es ++ [(part, .table .passed (← changeAt change path []))])
    | some (.table .inline _) => none
    | some (.table origin inner) => do
      pure (es.set part (.table origin (← changeAt change path inner)))
    | some (.tables elements) => do
      pure (es.set part (.tables (← changeLast (changeAt change path) elements)))
    | some _ => none

/-- The table that the parts of a header lead to, if it is there. -/
def at? : List String → Entries → Option Entries
  | [], es => some es
  | part :: path, es =>
    match es.lookup part with
    | some (.table _ inner) => at? path inner
    | some (.tables elements) => do at? path (← elements.getLast?)
    | _ => none

end Entries

/-- What the header above the present lines names. -/
inductive Section where
  | root
  | table (path : List String) (key : String)
  | element (path : List String) (key : String)

/-- A document under construction: the finished part, and the section that is being read. -/
structure Draft where
  root : Entries
  place : Section
  current : Entries

namespace Draft

def empty : Draft := ⟨[], .root, []⟩

/-- Puts the present section into the document. -/
def finish (d : Draft) : Option Entries :=
  match d.place with
  | .root => some d.current
  | .table path key => d.root.changeAt (Entries.define key (.table .header d.current)) path
  | .element path key =>
    d.root.changeAt (fun es =>
      match es.lookup key with
      | none => some (es ++ [(key, .tables [d.current])])
      | some (.tables elements) => some (es.set key (.tables (elements ++ [d.current])))
      | some _ => none) path

/-- Begins a table. One that other headers only passed on their way is taken up again. -/
def beginTable (d : Draft) (path : List String) (key : String) : Option Draft := do
  let root ← d.finish
  let root ← root.changeAt some path
  let parent ← root.at? path
  match parent.lookup key with
  | none => pure ⟨root, .table path key, []⟩
  | some (.table .passed inner) =>
    pure ⟨← root.changeAt (fun es => some (es.erase key)) path, .table path key, inner⟩
  | some _ => none

/-- Begins one more table of those that share a name. -/
def beginElement (d : Draft) (path : List String) (key : String) : Option Draft := do
  let root ← d.finish
  let root ← root.changeAt some path
  let parent ← root.at? path
  match parent.lookup key with
  | none =>
    pure ⟨← root.changeAt (some <| · ++ [(key, .tables [])]) path, .element path key, []⟩
  | some (.tables _) => pure ⟨root, .element path key, []⟩
  | some _ => none

def define (d : Draft) (path : List String) (key : String) (v : Value) : Option Draft := do
  pure { d with current := ← d.current.defineDotted path key v }

end Draft

mutual

/-- Reads a value. The first argument bounds the steps, the second the nesting. -/
def scanValue : Nat → Nat → Reader Value
  | 0, _, _ => none
  | steps + 1, levels, cs =>
    match cs with
    | [] => none
    | c :: rest =>
      if c = '"' || c = '\'' then (scanString cs).map fun (s, cs) => (.text (String.ofList s), cs)
      else if c = '[' then
        if levels = 0 then none
        else (scanItems steps (levels - 1) rest).map fun (items, cs) => (.list items, cs)
      else if c = '\x7b' then
        if levels = 0 then none
        else (scanInline steps (levels - 1) rest).map fun (es, cs) => (.table .inline es, cs)
      else if c = 't' then
        match rest with
        | 'r' :: 'u' :: 'e' :: cs => some (.boolean true, cs)
        | _ => none
      else if c = 'f' then
        match rest with
        | 'a' :: 'l' :: 's' :: 'e' :: cs => some (.boolean false, cs)
        | _ => none
      else if c = '+' || c = '-' || c.isDigit then scanNumber cs
      else if c = 'i' || c = 'n' then scanDecimal cs
      else none

/-- Reads the items of a list; a comma may follow the last one. -/
def scanItems : Nat → Nat → Reader (List Value)
  | 0, _, _ => none
  | steps + 1, levels, cs => do
    match ← skipLines false cs with
    | ']' :: cs => pure ([], cs)
    | cs =>
      let (item, cs) ← scanValue steps levels cs
      match ← skipLines false cs with
      | ']' :: cs => pure ([item], cs)
      | ',' :: cs =>
        let (items, cs) ← scanItems steps levels cs
        pure (item :: items, cs)
      | _ => none

/-- Reads the entries of an inline table. -/
def scanInline : Nat → Nat → Reader Entries
  | 0, _, _ => none
  | steps + 1, levels, cs =>
    match skipBlanks cs with
    | '\x7d' :: cs => some ([], cs)
    | cs => scanInlineFrom steps levels [] cs

/-- Reads the entries of an inline table that follow those in `es`; no comma follows the last. -/
def scanInlineFrom : Nat → Nat → Entries → Reader Entries
  | 0, _, _, _ => none
  | steps + 1, levels, es, cs => do
    let ((path, key), cs) ← scanKey cs
    let cs ← scanChar '=' cs
    let (v, cs) ← scanValue steps levels (skipBlanks cs)
    let es ← es.defineDotted path key v
    match skipBlanks cs with
    | '\x7d' :: cs => pure (es, cs)
    | ',' :: cs => scanInlineFrom steps levels es cs
    | _ => none

end

/-- Reads a header after its opening brackets, up to the end of its line. -/
def scanHeader (brackets : List Char) (cs : List Char) :
    Option ((List String × String) × List Char) := do
  let (path, cs) ← scanKey cs
  let cs ← brackets.foldlM (fun cs c => scanChar c cs) cs
  pure (path, ← lineEnd cs)

/-- Reads a key and its value, up to the end of the line. -/
def scanEntry (cs : List Char) : Option ((List String × String) × Value × List Char) := do
  let (path, cs) ← scanKey cs
  let cs ← scanChar '=' cs
  let (v, cs) ← scanValue (3 * cs.length + 3) (depthLimit - 1) (skipBlanks cs)
  pure (path, v, ← lineEnd cs)

/-- Reads statements up to the end of the text. -/
def readStatements : Nat → Draft → List Char → Option Draft
  | 0, _, _ => none
  | steps + 1, d, cs =>
    match skipBlanks cs with
    | [] => some d
    | '#' :: cs => do readStatements steps d (← lineEnd ('#' :: cs))
    | '\n' :: cs => readStatements steps d cs
    | '\r' :: '\n' :: cs => readStatements steps d cs
    | '[' :: '[' :: cs => do
      let ((path, key), cs) ← scanHeader "]]".toList cs
      readStatements steps (← d.beginElement path key) cs
    | '[' :: cs => do
      let ((path, key), cs) ← scanHeader "]".toList cs
      readStatements steps (← d.beginTable path key) cs
    | cs => do
      let ((path, key), v, cs) ← scanEntry cs
      readStatements steps (← d.define path key v) cs

/-- A byte order mark may come first. -/
def dropMark : List Char → List Char
  | '\ufeff' :: cs => cs
  | cs => cs

/-- The root table of a document, or `none` if the text is none. -/
def read? (text : String) : Option Entries := do
  let d ← readStatements (text.length + 1) .empty (dropMark text.toList)
  d.finish

end MethodIR.Toml
