import MethodIR.Json.Decoder

/-! Variables: named locals, which live in a slot of a frame, and temporaries. -/
namespace MethodIR

open Json (Decoder RecordField Fields)

/-- The variable that holds the block passed to a method. -/
def blockName : String := "%block"

/-- Names that start with a percent sign are never given by a source. -/
def isReserved (name : String) : Bool := name.toList.head? == some '%'

/-- A named local; `depth` counts the frames between its use and its own frame. -/
structure LocalVariable where
  name : String
  depth : UInt32
  slot : UInt32
deriving DecidableEq, Repr

structure TemporaryVariable where
  index : UInt32
deriving DecidableEq, Repr

inductive Variable where
  | ofLocal (v : LocalVariable)
  | ofTemporary (v : TemporaryVariable)
deriving DecidableEq, Repr

namespace LocalVariable

def members (v : LocalVariable) : List (String × Json) :=
  [("name", .text v.name), ("depth", .nat v.depth.toNat), ("slot", .nat v.slot.toNat)]

def toJson (v : LocalVariable) : Json := .object v.members

def fields :=
  Fields.field (.required "name" Decoder.text) <|
  .field (.required "depth" Decoder.u32) <|
  .field (.required "slot" Decoder.u32) .done

def decoder : Decoder LocalVariable :=
  (Decoder.record "struct LocalVariable" fields).map fun (name, depth, slot, _) =>
    ⟨name, depth, slot⟩

end LocalVariable

namespace TemporaryVariable

def text (v : TemporaryVariable) : String := "%v_" ++ toString v.index

def members (v : TemporaryVariable) : List (String × Json) := [("index", .nat v.index.toNat)]

def fields := Fields.field (.required "index" Decoder.u32) .done

def decoder : Decoder TemporaryVariable :=
  (Decoder.record "struct TemporaryVariable" fields).map fun (index, _) => ⟨index⟩

end TemporaryVariable

namespace Variable

def local? : Variable → Option LocalVariable
  | .ofLocal v => some v
  | .ofTemporary _ => none

def text : Variable → String
  | .ofLocal v => v.name
  | .ofTemporary v => v.text

def toJson : Variable → Json
  | .ofLocal v => .object (("kind", .text "local") :: v.members)
  | .ofTemporary v => .object (("kind", .text "temporary") :: v.members)

def decoder : Decoder Variable :=
  Decoder.tagged "Variable" "kind"
    [("local", .record "struct LocalVariable" LocalVariable.fields fun (name, depth, slot, _) =>
        .ofLocal ⟨name, depth, slot⟩),
      ("temporary", .record "struct TemporaryVariable" TemporaryVariable.fields fun (index, _) =>
        .ofTemporary ⟨index⟩)]

end Variable

end MethodIR
