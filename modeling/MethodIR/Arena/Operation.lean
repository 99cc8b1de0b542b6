import MethodIR.Arena.Basic

/-! The operations that a front end performs on an arena, and their answers. -/
namespace MethodIR

inductive Operation where
  | newScript (file : String) (line : UInt32)
  | newStaticScope
  | newMethod (parent : ScopeId) (name : String) (isInstance : Bool) (line : UInt32)
      (staticScope : Option StaticScopeId)
  /-- Appends to a method. -/
  | append (id : ScopeId) (i : Instruction)
  | declare (id : ScopeId) (p : Parameter)
  | resolve (id : ScopeId) (name : String) (depth : UInt32)
  | block (id : ScopeId)
  /-- Appends to a scope of any kind. -/
  | add (id : ScopeId) (i : Instruction)
  | find (id : ScopeId) (name : String) (depth : UInt32)
  | request (id : ScopeId) (name : String) (depth : UInt32)

inductive Reply where
  | scope (id : ScopeId)
  | staticScope (id : StaticScopeId)
  | appended (instructions : Nat) (signature : List Operand)
  | declared (parameters : List Parameter)
  | variable (v : LocalVariable)
  | added (instructions : Nat)
  | found (v : Option LocalVariable)
  /-- There is no scope of that id. -/
  | noScope
deriving DecidableEq

namespace Arena

/-- Changes a method by a step that gives an answer. -/
def onMethod (a : Arena) (id : ScopeId) (step : Method → Except Error (Reply × Method)) :
    Except Error (Reply × Arena) := do
  let m ← a.method? id
  let (reply, m) ← step m
  pure (reply, a.setScope id (.method m))

/-- Changes a scope of any kind by a step that gives an answer. -/
def onScope (a : Arena) (id : ScopeId) (step : Scope → Except Error (Reply × Scope)) :
    Except Error (Reply × Arena) :=
  match a.scope? id with
  | none => .ok (.noScope, a)
  | some s => do
    let (reply, s) ← step s
    pure (reply, a.setScope id s)

/-- The answer to an operation and the arena after it. -/
def attempt (a : Arena) : Operation → Except Error (Reply × Arena)
  | .newScript file line =>
    let (id, a) := a.newScript file line
    .ok (.scope id, a)
  | .newStaticScope =>
    let (id, a) := a.newStaticScope
    .ok (.staticScope id, a)
  | .newMethod parent name isInstance line staticScope => do
    let (id, a) ← a.newMethod parent name isInstance line staticScope
    pure (.scope id, a)
  | .append id i => a.onMethod id fun m =>
    let m := m.append i
    .ok (.appended m.instructions.length m.signature, m)
  | .declare id p => a.onMethod id fun m =>
    let m := m.declare p
    .ok (.declared m.parameters, m)
  | .resolve id name depth => a.onMethod id fun m => do
    let (v, m) ← (m.resolve name depth).mapError .depth
    pure (.variable v, m)
  | .block id => a.onMethod id fun m =>
    let (v, m) := m.block
    .ok (.variable v, m)
  | .add id i => a.onScope id fun s =>
    let s := s.append i
    .ok (.added s.frame.instructions.length, s)
  | .find id name depth => a.onScope id fun s => do
    let v ← (s.find? name depth).mapError .depth
    pure (.found v, s)
  | .request id name depth => a.onScope id fun s => do
    let (v, s) ← (s.request name depth).mapError .depth
    pure (.variable v, s)

/-- Performs an operation. One that fails leaves the arena as it is. -/
def perform (a : Arena) (op : Operation) : Except Error Reply × Arena :=
  match a.attempt op with
  | .ok (reply, a) => (.ok reply, a)
  | .error e => (.error e, a)

/-- Performs operations one after another and collects their answers. -/
def run (a : Arena) : List Operation → List (Except Error Reply) × Arena
  | [] => ([], a)
  | op :: ops =>
    let (reply, a) := a.perform op
    let (replies, a) := run a ops
    (reply :: replies, a)

end Arena

end MethodIR
