import MethodIR.Json.Decoder

/-! Parameters as a method declares them, for reflection. -/
namespace MethodIR

open Json (Decoder Fields)

namespace Parameter

inductive Kind where
  | required
  | optional
  | rest
  | keyword
  | keywordRest
  | block
deriving DecidableEq, Repr

namespace Kind

/-- All kinds in their order. -/
def all : List Kind := [.required, .optional, .rest, .keyword, .keywordRest, .block]

def symbol : Kind → String
  | .required => "req"
  | .optional => "opt"
  | .rest => "rest"
  | .keyword => "key"
  | .keywordRest => "keyrest"
  | .block => "block"

def ofSymbol? (s : String) : Option Kind := all.find? (·.symbol == s)

/-- Said of a symbol that no kind has. -/
def unknownSymbolMessage : String := "Matching variant not found"

def toJson (k : Kind) : Json := .text k.symbol

def decoder : Decoder Kind := Decoder.name (all.map fun k => (k.symbol, k))

end Kind

end Parameter

structure Parameter where
  kind : Parameter.Kind
  name : String
deriving DecidableEq, Repr

namespace Parameter

def render (p : Parameter) : String := "[:" ++ p.kind.symbol ++ ", " ++ Text.quoted p.name ++ "]"

def toJson (p : Parameter) : Json := .object [("kind", p.kind.toJson), ("name", .text p.name)]

def decoder : Decoder Parameter :=
  (Decoder.record "struct ArgumentDescriptor"
    (.field (.required "kind" Kind.decoder) (.field (.required "name" Decoder.text) .done))).map
      fun (kind, name, _) => ⟨kind, name⟩

end Parameter

end MethodIR
