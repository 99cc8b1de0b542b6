import MethodIR.Numbering
import MethodIR.Variable

/-! The named variables of a frame. Each name has the next free slot from its first request on. -/
namespace MethodIR

structure VariableTable where
  numbering : Numbering
deriving DecidableEq

namespace VariableTable

def empty : VariableTable := ⟨.empty⟩

def size (t : VariableTable) : Nat := t.numbering.size

def isEmpty (t : VariableTable) : Bool := t.size == 0

/-- The variable of a table that has the name in the slot. -/
def variableAt (name : String) (slot : Nat) : LocalVariable := ⟨name, 0, .ofNat slot⟩

def find? (t : VariableTable) (name : String) : Option LocalVariable :=
  (t.numbering.number? name).map (variableAt name)

/-- The variable called `name`, which gets a slot if it has none. -/
def request (t : VariableTable) (name : String) : LocalVariable × VariableTable :=
  ((t.find? name).getD (variableAt name t.size), ⟨t.numbering.insert name⟩)

/-- All variables in the order of their slots. -/
def toList (t : VariableTable) : List LocalVariable :=
  t.numbering.texts.zipIdx.map fun (name, slot) => variableAt name slot

end VariableTable

end MethodIR
