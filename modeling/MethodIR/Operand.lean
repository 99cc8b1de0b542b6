import MethodIR.Variable

/-! Operands: the values that instructions read. -/
namespace MethodIR

open Json (Decoder)

inductive Operand where
  | variable (v : Variable)
  /-- The remaining positional arguments as one value. -/
  | splat (inner : Operand)
  | nil
  | fixnum (n : Int64)
  | text (s : String)
  | self
deriving DecidableEq

namespace Operand

def isSplat : Operand → Bool
  | .splat _ => true
  | _ => false

/-- The variable that an operand names, seen through splats. -/
def named? : Operand → Option Variable
  | .variable v => some v
  | .splat inner => inner.named?
  | _ => none

def render : Operand → String
  | .variable v => v.text
  | .splat inner => "*" ++ inner.render
  | .nil => "nil"
  | .fixnum n => toString n.toInt
  | .text s => Text.quoted s
  | .self => "%self"

/-- An operand as an object of its kind and its value. -/
def toJson : Operand → Json
  | .variable v => .object [("kind", .text "variable"), ("value", v.toJson)]
  | .splat inner => .object [("kind", .text "splat"), ("value", inner.toJson)]
  | .nil => .object [("kind", .text "nil")]
  | .fixnum n => .object [("kind", .text "fixnum"), ("value", .int n.toInt)]
  | .text s => .object [("kind", .text "str"), ("value", .text s)]
  | .self => .object [("kind", .text "self_value")]

def decoder : Decoder Operand := Decoder.nested fun inner =>
  Decoder.adjacent "Operand" "kind" "value"
    [("variable", .content Variable.decoder .variable),
      ("splat", .content inner .splat),
      ("nil", .bare "unit variant Operand::Nil" .nil),
      ("fixnum", .content Decoder.i64 .fixnum),
      ("str", .content Decoder.text .text),
      ("self_value", .bare "unit variant Operand::SelfValue" .self)]

end Operand

end MethodIR
