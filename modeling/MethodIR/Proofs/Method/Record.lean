import MethodIR.Arena.Operation
import MethodIR.Proofs.FirstSeen

/-! What the operations on a method add to it: instructions, declared parameters, names. -/
namespace MethodIR

namespace Method

/-- A method after more instructions, declarations and requests. -/
def record (m : Method) (is : List Instruction) (ps : List Parameter) (names : List String) :
    Method :=
  { m with
    locals := m.locals.requestAll names
    instructions := m.instructions ++ is
    signature := m.signature ++ is.filterMap Instruction.signatureEntry?
    parameters := m.parameters ++ ps }

variable (m : Method) {is is' : List Instruction} {ps ps' : List Parameter}
  {names names' : List String}

@[simp] theorem record_name : (m.record is ps names).name = m.name := rfl

@[simp] theorem record_locals : (m.record is ps names).locals = m.locals.requestAll names := rfl

@[simp] theorem record_nil : m.record [] [] [] = m := by simp [record]

@[simp] theorem record_record : (m.record is ps names).record is' ps' names' =
    m.record (is ++ is') (ps ++ ps') (names ++ names') := by
  simp [record, VariableTable.requestAll_append]

theorem append_eq_record (i : Instruction) : m.append i = m.record [i] [] [] := by
  cases h : i.signatureEntry? <;> simp [append, record, h]

theorem declare_eq_record (p : Parameter) : m.declare p = m.record [] [p] [] := by
  simp [declare, record]

theorem request_eq_record (name : String) : m.request name =
    (VariableTable.localIn (m.record [] [] [name]).locals.names name, m.record [] [] [name]) := by
  simp [request, Frame.request, VariableTable.request_eq, record]

theorem block_eq_record : m.block =
    (VariableTable.localIn (m.record [] [] [blockName]).locals.names blockName,
      m.record [] [] [blockName]) := m.request_eq_record blockName

end Method

end MethodIR
