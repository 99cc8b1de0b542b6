import MethodIR.Decimal.Style
import MethodIR.Text.Quoted

/-! What stands in a document where something else was expected, and how messages name it. -/
namespace MethodIR

inductive Found where
  | null
  | boolean (b : Bool)
  | integer (n : Int)
  | real (x : Decimal.Double)
  | text (s : String)
  | sequence
  | map
deriving DecidableEq, Repr

/-- The name of a value in a message, reals in the given style. -/
def Found.describe (style : Decimal.Style) : Found → String
  | .null => "null"
  | .boolean b => "boolean `" ++ (if b then "true" else "false") ++ "`"
  | .integer n => "integer `" ++ toString n ++ "`"
  | .real x => "floating point `" ++ x.text style ++ "`"
  | .text s => "string " ++ Text.quoted s
  | .sequence => "sequence"
  | .map => "map"

end MethodIR
