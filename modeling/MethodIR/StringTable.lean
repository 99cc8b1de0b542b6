import MethodIR.Json.Decoder
import MethodIR.Numbering

/-! Texts interned under small numbers; the names of source files are kept in such a table. -/
namespace MethodIR

structure FileId where
  index : UInt32
deriving DecidableEq, Repr

namespace FileId

def text (f : FileId) : String := "file#" ++ toString f.index

def toJson (f : FileId) : Json := .nat f.index.toNat

def decoder : Json.Decoder FileId := Json.Decoder.u32.map FileId.mk

end FileId

structure StringTable where
  numbering : Numbering
deriving DecidableEq

namespace StringTable

def empty : StringTable := ⟨.empty⟩

/-- The number of `s`, the next free one if it is new. -/
def intern (t : StringTable) (s : String) : UInt32 × StringTable :=
  (.ofNat ((t.numbering.number? s).getD t.numbering.size), ⟨t.numbering.insert s⟩)

def internFile (t : StringTable) (s : String) : FileId × StringTable :=
  let (n, t) := t.intern s
  (⟨n⟩, t)

def text? (t : StringTable) (n : UInt32) : Option String := t.numbering.text? n.toNat

def file? (t : StringTable) (f : FileId) : Option String := t.text? f.index

def size (t : StringTable) : Nat := t.numbering.size

def isEmpty (t : StringTable) : Bool := t.size == 0

end StringTable

end MethodIR
