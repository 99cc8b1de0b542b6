import MethodIR.Proofs.Arena.Change
import MethodIR.Scope.Summary

/-!
A method keeps three histories that do not touch one another: its instructions, its declared
parameters and the names it was asked for. The call signature follows from the first.
-/
namespace MethodIR

namespace Instruction

/-- The instructions that bind an argument of the call. -/
def receives : Instruction → Bool
  | .receiveRequired .. | .receiveOptional .. | .receiveKeyword .. | .receivePost ..
  | .receiveRest .. => true
  | _ => false

def receivesRest : Instruction → Bool
  | .receiveRest .. => true
  | _ => false

theorem signatureEntry?_eq_some_iff {i : Instruction} {entry : Operand} :
    i.signatureEntry? = some entry ↔ i.receives = true ∧ ∃ v, i.result? = some v ∧
      entry = if i.receivesRest then .splat (.variable v) else .variable v := by
  cases i <;> simp [receipt?, signatureEntry?, receives, receivesRest, result?, eq_comm]

end Instruction

namespace Operation

/-- Operations on the method `id`, all at depth zero. -/
inductive OnMethod (id : ScopeId) : Operation → Prop where
  | append (i : Instruction) : OnMethod id (.append id i)
  | add (i : Instruction) : OnMethod id (.add id i)
  | declare (p : Parameter) : OnMethod id (.declare id p)
  | resolve (name : String) : OnMethod id (.resolve id name 0)
  | request (name : String) : OnMethod id (.request id name 0)
  | block : OnMethod id (.block id)
  | find (name : String) : OnMethod id (.find id name 0)

/-- The instruction that an operation appends. -/
def instruction? : Operation → Option Instruction
  | .append _ i | .add _ i => some i
  | _ => none

/-- The parameter that an operation declares. -/
def parameter? : Operation → Option Parameter
  | .declare _ p => some p
  | _ => none

/-- The name that an operation asks a variable for. -/
def name? : Operation → Option String
  | .resolve _ name _ | .request _ name _ => some name
  | .block _ => some blockName
  | _ => none

end Operation

namespace Method

/-- A method after operations on it, each of which enters one history at most. -/
def after (m : Method) (ops : List Operation) : Method :=
  m.record (ops.filterMap Operation.instruction?) (ops.filterMap Operation.parameter?)
    (ops.filterMap Operation.name?)

/-- What a method that was new holds after operations: each history has its own operations in their
order, and the signature is read off the instructions. -/
structure Holds (m : Method) (ops : List Operation) : Prop where
  instructions : m.instructions = ops.filterMap Operation.instruction?
  parameters : m.parameters = ops.filterMap Operation.parameter?
  locals : m.locals.toList = (ops.filterMap Operation.name?).eraseDups.mapIdx
    fun slot name => ⟨name, 0, .ofNat slot⟩
  slots : ∀ (slot : Nat) (v : LocalVariable), m.locals.toList[slot]? = some v →
    v.slot.toNat = slot
  signature : m.signature = m.instructions.filterMap Instruction.signatureEntry?

theorem after_append (m : Method) (ops ops' : List Operation) :
    m.after (ops ++ ops') = (m.after ops).after ops' := by
  simp [after]

variable {id : ScopeId} {parent : Header} {name : String} {isInstance : Bool} {line : UInt32}
  {staticScope : Option StaticScopeId} {options : Options} {ops : List Operation}

theorem locals_after_new :
    ((new id parent name isInstance line staticScope options).after ops).locals.names =
      (ops.filterMap Operation.name?).eraseDups := VariableTable.names_requestAll_empty _

theorem length_names_take_le (k : Nat) :
    ((ops.take k).filterMap Operation.name?).eraseDups.length ≤
      (ops.filterMap Operation.name?).eraseDups.length := by
  have h := VariableTable.prefix_requestAll
    (.requestAll .empty ((ops.take k).filterMap Operation.name?))
    ((ops.drop k).filterMap Operation.name?)
  rw [← VariableTable.requestAll_append, ← List.filterMap_append, List.take_append_drop] at h
  simpa only [VariableTable.names_requestAll_empty] using h.length_le

theorem holds_after_new (hsize : (ops.filterMap Operation.name?).eraseDups.length < 2 ^ 32) :
    ((new id parent name isInstance line staticScope options).after ops).Holds ops where
  instructions := rfl
  parameters := rfl
  locals := by rw [VariableTable.toList_eq_mapIdx, locals_after_new]
  slots slot v hv := by
    refine VariableTable.toNat_slot ?_ hv
    rw [locals_after_new]
    exact Nat.le_of_lt hsize
  signature := rfl

/-- Only the trace flag tells apart two methods with the same histories, and no summary shows it. -/
theorem summary_traced (m : Method) (traced : Bool) (file : String) :
    { m with traced }.summary file = m.summary file := rfl

end Method

namespace Arena

variable {a : Arena} {id : ScopeId} {m m' : Method} {op : Operation} {ops : List Operation}

/-- An operation on a method succeeds, and touches nothing but that method. -/
theorem attempt_onMethod (h : a.scope? id = some (.method m)) (hop : op.OnMethod id) :
    ∃ reply, a.attempt op = .ok (reply, a.setScope id (.method (m.after [op]))) := by
  cases hop with
  | append i =>
    refine ⟨_, onMethod_eq_ok_iff.2 ⟨m, _, h, rfl, ?_⟩⟩
    rw [m.append_eq_record]
    rfl
  | add i =>
    refine ⟨_, onScope_eq_ok_iff.2 (.inr ⟨.method m, _, h, rfl, ?_⟩)⟩
    rw [Scope.append, m.append_eq_record]
    rfl
  | declare p =>
    refine ⟨_, onMethod_eq_ok_iff.2 ⟨m, _, h, rfl, ?_⟩⟩
    rw [m.declare_eq_record]
    rfl
  | resolve name =>
    refine ⟨_, onMethod_eq_ok_iff.2 ⟨m, (m.request name).2, h, rfl, ?_⟩⟩
    rw [m.request_eq_record]
    rfl
  | request name =>
    refine ⟨_, onScope_eq_ok_iff.2 (.inr ⟨.method m, .method (m.request name).2, h, rfl, ?_⟩)⟩
    rw [m.request_eq_record]
    rfl
  | block =>
    refine ⟨_, onMethod_eq_ok_iff.2 ⟨m, m.block.2, h, rfl, ?_⟩⟩
    rw [m.block_eq_record]
    rfl
  | find name =>
    refine ⟨_, onScope_eq_ok_iff.2 (.inr ⟨.method m, .method m, h, rfl, ?_⟩)⟩
    rw [show m.after [.find id name 0] = m from m.record_nil]

/-- Operations on one method enter its histories and touch nothing else. -/
theorem run_onMethod (h : a.scope? id = some (.method m)) (hops : ∀ op ∈ ops, op.OnMethod id) :
    (a.run ops).2 = a.setScope id (.method (m.after ops)) ∧
      ∀ reply ∈ (a.run ops).1, ∃ r, reply = .ok r := by
  induction ops generalizing a m with
  | nil =>
    refine ⟨?_, by simp [run]⟩
    simp [run, Method.after, setScope_self h]
  | cons op ops ih =>
    obtain ⟨hop, hops⟩ := List.forall_mem_cons.1 hops
    obtain ⟨reply, hr⟩ := attempt_onMethod h hop
    obtain ⟨hrun, hok⟩ := ih (scope?_setScope h _) hops
    have hp : a.perform op = (.ok reply, a.setScope id (.method (m.after [op]))) := by
      rw [perform, hr]
    simp only [run, hp]
    constructor
    · rw [hrun, setScope_setScope, ← Method.after_append, List.singleton_append]
    · exact List.forall_mem_cons.2 ⟨⟨reply, rfl⟩, hok⟩

/-- A new method under operations of every kind, in any order. At each point its instructions, its
parameters and its variables are those of the operations on them alone, and its signature follows
from its instructions. So the order between the kinds never shows, nor does tracing. -/
theorem run_histories {n : ScopeId} {parent : Header} {name : String} {isInstance : Bool}
    {line : UInt32} {staticScope : Option StaticScopeId} {o : Options}
    (h : a.scope? id = some (.method (.new n parent name isInstance line staticScope o)))
    (hops : ∀ op ∈ ops, op.OnMethod id)
    (hsize : (ops.filterMap Operation.name?).eraseDups.length < 2 ^ 32) :
    (∀ k, ∃ m, (a.run (ops.take k)).2 = a.setScope id (.method m) ∧
      (a.run (ops.take k)).2.method? id = .ok m ∧
      (∀ reply ∈ (a.run (ops.take k)).1, ∃ r, reply = .ok r) ∧ m.Holds (ops.take k) ∧
      m.header = ⟨n, some parent.id, name, parent.file, line, staticScope⟩ ∧
      m.isInstance = isInstance ∧ m.traced = o.traceSignature) ∧
    (∀ (i : Instruction) entry, i.signatureEntry? = some entry ↔ i.receives = true ∧
      ∃ v, i.result? = some v ∧
        entry = if i.receivesRest then .splat (.variable v) else .variable v) ∧
    ∀ (a' : Arena) (o' : Options) (ops' : List Operation),
      a'.scope? id = some (.method (.new n parent name isInstance line staticScope o')) →
      (∀ op ∈ ops', op.OnMethod id) →
      ops'.filterMap Operation.instruction? = ops.filterMap Operation.instruction? →
      ops'.filterMap Operation.parameter? = ops.filterMap Operation.parameter? →
      ops'.filterMap Operation.name? = ops.filterMap Operation.name? →
      ∃ m m', (a.run ops).2.method? id = .ok m ∧ (a'.run ops').2.method? id = .ok m' ∧
        m' = { m with traced := o'.traceSignature } ∧
        ∀ file, m'.summary file = m.summary file := by
  refine ⟨fun k => ?_, fun i entry => Instruction.signatureEntry?_eq_some_iff, ?_⟩
  · have hk := Nat.lt_of_le_of_lt (Method.length_names_take_le k) hsize
    obtain ⟨hrun, hok⟩ := run_onMethod h fun op hop => hops op (List.mem_of_mem_take hop)
    refine ⟨_, hrun, ?_, hok, Method.holds_after_new hk, rfl, rfl, rfl⟩
    rw [hrun, method?_eq_ok_iff, scope?_setScope h]
  · intro a' o' ops' h' hops' hi hp hn
    have hrun := run_onMethod h hops
    have hrun' := run_onMethod h' hops'
    refine ⟨(Method.new n parent name isInstance line staticScope o).after ops,
      (Method.new n parent name isInstance line staticScope o').after ops', ?_, ?_, ?_⟩
    · rw [hrun.1, method?_eq_ok_iff, scope?_setScope h]
    · rw [hrun'.1, method?_eq_ok_iff, scope?_setScope h']
    · rw [Method.after, hi, hp, hn]
      exact ⟨rfl, fun file => Method.summary_traced (.after _ ops) o'.traceSignature file⟩

/-- A rest between two receipts into one variable, a temporary destination, and the block. -/
def mixedOperations (id : ScopeId) : List Operation :=
  [.resolve id "a" 0, .append id (.receiveRequired (.ofLocal ⟨"a", 0, 0⟩) 0),
    .declare id ⟨.rest, "r"⟩, .block id, .add id (.receiveRest (.ofTemporary ⟨4⟩) 1),
    .find id "b" 0, .request id "b" 0, .append id (.receiveBlock (.ofLocal ⟨blockName, 0, 1⟩)),
    .add id (.receivePost (.ofLocal ⟨"a", 0, 0⟩) 0 1), .resolve id "a" 0]

theorem onMethod_mixedOperations (id : ScopeId) : ∀ op ∈ mixedOperations id, op.OnMethod id := by
  simp only [mixedOperations, List.forall_mem_cons, List.not_mem_nil, false_imp_iff,
    implies_true, and_true]
  exact ⟨.resolve _, .append _, .declare _, .block, .add _, .find _, .request _, .append _,
    .add _, .resolve _⟩

theorem run_histories_mixed :
    let m : Method := .new ⟨0⟩ ⟨⟨7⟩, none, "__file__", ⟨3⟩, 1, none⟩ "each" true 2 none .default
    let a : Arena := ⟨.default, .empty, [.method m], []⟩
    a.scope? ⟨0⟩ = some (.method m) ∧ (∀ op ∈ mixedOperations ⟨0⟩, op.OnMethod ⟨0⟩) ∧
      ((mixedOperations ⟨0⟩).filterMap Operation.name?).eraseDups = ["a", blockName, "b"] ∧
      ∀ k, ∃ m', (a.run ((mixedOperations ⟨0⟩).take k)).2.method? ⟨0⟩ = .ok m' ∧
        m'.Holds ((mixedOperations ⟨0⟩).take k) := by
  intro m a
  have hs : a.scope? ⟨0⟩ = some (.method m) := rfl
  have hops := onMethod_mixedOperations ⟨0⟩
  have hn : ((mixedOperations ⟨0⟩).filterMap Operation.name?).eraseDups =
      ["a", blockName, "b"] := by decide
  refine ⟨hs, hops, hn, fun k => ?_⟩
  obtain ⟨m', -, hm, -, hh, -⟩ := (run_histories hs hops (by rw [hn]; decide)).1 k
  exact ⟨m', hm, hh⟩

end Arena

end MethodIR
