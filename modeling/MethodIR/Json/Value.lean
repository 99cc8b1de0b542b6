import MethodIR.Json.Literal
import MethodIR.Json.Text

/-! JSON values, members in the order of the text, and their two layouts. -/
namespace MethodIR

inductive Json where
  | null
  | boolean (b : Bool)
  | number (l : Json.Literal)
  | text (s : String)
  | list (items : List Json)
  | object (members : List (String × Json))

namespace Json

def int (n : Int) : Json := .number (.ofInt n)

def nat (n : Nat) : Json := .int n

/-- The member of that name, the first if there are several. -/
def member? (name : String) : Json → Option Json
  | .object members => members.lookup name
  | _ => none

def optional {α : Type} (f : α → Json) : Option α → Json
  | none => .null
  | some a => f a

mutual

/-- The text without any blanks, in front of what follows it. -/
def writeOnto : Json → List Char → List Char
  | .null, rest => "null".toList ++ rest
  | .boolean b, rest => (if b then "true" else "false").toList ++ rest
  | .number l, rest => l.text ++ rest
  | .text s, rest => writeText s ++ rest
  | .list items, rest => '[' :: writeItems items (']' :: rest)
  | .object members, rest => '\x7b' :: writeMembers members ('\x7d' :: rest)

def writeItems : List Json → List Char → List Char
  | [], rest => rest
  | [j], rest => writeOnto j rest
  | j :: js, rest => writeOnto j (',' :: writeItems js rest)

def writeMembers : List (String × Json) → List Char → List Char
  | [], rest => rest
  | [(k, j)], rest => writeText k ++ ':' :: writeOnto j rest
  | (k, j) :: ms, rest => writeText k ++ ':' :: writeOnto j (',' :: writeMembers ms rest)

end

/-- The text without any blanks. -/
def compact (j : Json) : List Char := j.writeOnto []

mutual

theorem writeOnto_append (j : Json) (rest more : List Char) :
    j.writeOnto (rest ++ more) = j.writeOnto rest ++ more := by
  cases j with
  | null | boolean | number | text => simp [writeOnto]
  | list items => simp [writeOnto, ← writeItems_append items (']' :: rest)]
  | object members => simp [writeOnto, ← writeMembers_append members ('\x7d' :: rest)]

theorem writeItems_append (js : List Json) (rest more : List Char) :
    writeItems js (rest ++ more) = writeItems js rest ++ more := by
  match js with
  | [] => rfl
  | [j] => exact writeOnto_append j rest more
  | j :: j' :: js =>
    simp only [writeItems, writeItems_append (j' :: js) rest more]
    exact writeOnto_append j (',' :: writeItems (j' :: js) rest) more

theorem writeMembers_append (ms : List (String × Json)) (rest more : List Char) :
    writeMembers ms (rest ++ more) = writeMembers ms rest ++ more := by
  match ms with
  | [] => rfl
  | [(k, j)] => simp [writeMembers, writeOnto_append j rest more]
  | (k, j) :: m :: ms =>
    simp only [writeMembers, writeMembers_append (m :: ms) rest more]
    simp [← writeOnto_append j (',' :: writeMembers (m :: ms) rest) more]

end

theorem writeOnto_eq (j : Json) (rest : List Char) : j.writeOnto rest = j.compact ++ rest :=
  writeOnto_append j [] rest

/-- A new line with two blanks for each level. -/
def newline (level : Nat) : List Char := '\n' :: List.replicate (2 * level) ' '

/-- Pieces with commas between them. -/
def commas : List (List Char) → List Char
  | [] => []
  | [piece] => piece
  | piece :: pieces => piece ++ ',' :: commas pieces

/-- Brackets around pieces, each on a line of its own one level further in. -/
def block (opening closing : Char) (level : Nat) : List (List Char) → List Char
  | [] => [opening, closing]
  | pieces =>
    opening :: (commas (pieces.map (newline (level + 1) ++ ·)) ++ newline level ++ [closing])

mutual

/-- The text with a line for each item and member, at a level of indentation. -/
def prettyAt (level : Nat) : Json → List Char
  | .null => "null".toList
  | .boolean b => (if b then "true" else "false").toList
  | .number l => l.text
  | .text s => writeText s
  | .list items => block '[' ']' level (prettyItems (level + 1) items)
  | .object members => block '\x7b' '\x7d' level (prettyMembers (level + 1) members)

def prettyItems (level : Nat) : List Json → List (List Char)
  | [] => []
  | j :: js => prettyAt level j :: prettyItems level js

def prettyMembers (level : Nat) : List (String × Json) → List (List Char)
  | [] => []
  | (k, j) :: ms => (writeText k ++ ": ".toList ++ prettyAt level j) :: prettyMembers level ms

end

def render (j : Json) : String := String.ofList j.compact

def pretty (j : Json) : String := String.ofList (j.prettyAt 0)

end Json

end MethodIR
