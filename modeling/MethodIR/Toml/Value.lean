import MethodIR.Found

/-! TOML values, tables with their keys in the order of the text. -/
namespace MethodIR.Toml

/-- How a table came about. Only some tables can be added to later. -/
inductive Origin where
  /-- Written between braces. -/
  | inline
  /-- Named by a header. -/
  | header
  /-- Named on the way to the last key of a header. -/
  | passed
  /-- Named on the way to the last key of a dotted key. -/
  | dotted
deriving DecidableEq, Repr

inductive Value where
  | text (s : String)
  | integer (n : Int)
  | real (x : Decimal.Double)
  | boolean (b : Bool)
  | time
  | list (items : List Value)
  | table (origin : Origin) (entries : List (String × Value))
  /-- Tables that were named by headers in double brackets. -/
  | tables (elements : List (List (String × Value)))

/-- The entries of a table. -/
abbrev Entries := List (String × Value)

/-- What messages call a value. -/
def Value.found : Value → Found
  | .text s => .text s
  | .integer n => .integer n
  | .real x => .real x
  | .boolean b => .boolean b
  | .time | .table _ _ => .map
  | .list _ | .tables _ => .sequence

end MethodIR.Toml
