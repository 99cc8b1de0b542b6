import MethodIR.Arena.Basic
import MethodIR.Description.Basic

/-!
Building a unit from its description: a script with all methods below it. Each step of a body
becomes one instruction; names become variables in the order in which the steps use them.
-/
namespace MethodIR

/-- Why a description cannot be built. -/
inductive BuildError where
  | reservedName (method name : String)
  | unknownKind (method kind : String)
  | arena (e : Arena.Error)
deriving DecidableEq

def BuildError.message : BuildError → String
  | .reservedName method name => "method '" ++ method ++ "': '" ++ name ++ "' is a reserved name"
  | .unknownKind method kind =>
    "method '" ++ method ++ "': unknown argument kind '" ++ kind ++ "'"
  | .arena e => e.message

/-- A method under construction and the number of its temporaries. -/
structure Progress where
  method : Method
  temporaries : UInt32

namespace Progress

/-- The variable for a name of the source; reserved names are not for the source. -/
def name (p : Progress) (name : String) : Except BuildError (Variable × Progress) :=
  if isReserved name then .error (.reservedName p.method.name name)
  else
    let (v, method) := p.method.request name
    .ok (.ofLocal v, { p with method })

def block (p : Progress) : Variable × Progress :=
  let (v, method) := p.method.block
  (.ofLocal v, { p with method })

def temporary (p : Progress) : Variable × Progress :=
  (.ofTemporary ⟨p.temporaries⟩, { p with temporaries := p.temporaries + 1 })

/-- The operand for a value; without one it is nil. -/
def operand (p : Progress) : Option Description.Value → Except BuildError (Operand × Progress)
  | none => .ok (.nil, p)
  | some (.fixnum n) => .ok (.fixnum n, p)
  | some (.text s) => .ok (.text s, p)
  | some (.variable name) => do
    let (v, p) ← p.name name
    pure (.variable v, p)

/-- The operands for values, from left to right. -/
def operands (p : Progress) :
    List Description.Value → Except BuildError (List Operand × Progress)
  | [] => .ok ([], p)
  | value :: values => do
    let (arg, p) ← p.operand (some value)
    let (args, p) ← operands p values
    pure (arg :: args, p)

/-- The variable for the result of a call: a named one, or the next temporary. -/
def result (p : Progress) : Option String → Except BuildError (Variable × Progress)
  | some name => p.name name
  | none => .ok p.temporary

/-- The instruction for a step. Values are resolved before destinations. -/
def instruction (p : Progress) : Description.Step → Except BuildError (Instruction × Progress)
  | .receive name index => do
    let (v, p) ← p.name name
    pure (.receiveRequired v index, p)
  | .receiveOptional name index least => do
    let (v, p) ← p.name name
    pure (.receiveOptional v index least, p)
  | .receiveKeyword name => do
    let (v, p) ← p.name name
    pure (.receiveKeyword v name, p)
  | .receivePost name index before => do
    let (v, p) ← p.name name
    pure (.receivePost v index before, p)
  | .receiveRest name index => do
    let (v, p) ← p.name name
    pure (.receiveRest v index, p)
  | .receiveBlock =>
    let (v, p) := p.block
    .ok (.receiveBlock v, p)
  | .receiveSelf name => do
    let (v, p) ← p.name name
    pure (.receiveSelf v, p)
  | .copy name value => do
    let (value, p) ← p.operand value
    let (v, p) ← p.name name
    pure (.copy v value, p)
  | .call result callee args => do
    let (args, p) ← p.operands args
    let (v, p) ← p.result result
    pure (.call v .self callee args, p)
  | .giveBack value => do
    let (value, p) ← p.operand value
    pure (.giveBack value, p)
  | .line number => .ok (.line number, p)

/-- Appends the instruction for a step. -/
def step (p : Progress) (s : Description.Step) : Except BuildError Progress := do
  let (i, p) ← p.instruction s
  pure { p with method := p.method.append i }

end Progress

/-- A build that failed, with what had been built when it did. -/
structure Failure (α : Type) where
  cause : BuildError
  built : α

namespace Method

/-- Declares the parameters of a description. -/
def declareAll (m : Method) : List Description.Param → Except (Failure Method) Method
  | [] => .ok m
  | param :: params =>
    match Parameter.Kind.ofSymbol? param.kind with
    | none => .error ⟨.unknownKind m.name param.kind, m⟩
    | some kind => (m.declare ⟨kind, param.name⟩).declareAll params

end Method

/-- Takes the steps of a body one after another. -/
def Progress.steps (p : Progress) : List Description.Step → Except (Failure Method) Progress
  | [] => .ok p
  | s :: body =>
    match p.step s with
    | .error cause => .error ⟨cause, p.method⟩
    | .ok p => p.steps body

/-- Fills an empty method: all parameters, then the body. -/
def Method.fill (m : Method) (d : Description.Method) : Except (Failure Method) Method := do
  let m ← m.declareAll d.params
  let p ← Progress.steps ⟨m, 0⟩ d.body
  pure p.method

namespace Arena

/-- Builds one method below a script. -/
def buildMethod (a : Arena) (script : ScopeId) (d : Description.Method) :
    Except (Failure Arena) (ScopeId × Arena) := do
  let (staticScope, a) :=
    if d.hasStaticScope then
      let (id, a) := a.newStaticScope
      (some id, a)
    else (none, a)
  let failed {α : Type} (a : Arena) (r : Except Error α) : Except (Failure Arena) α :=
    r.mapError fun e => ⟨.arena e, a⟩
  let (id, a) ← failed a (a.newMethod script d.name d.isInstance d.line staticScope)
  let m ← failed a (a.method? id)
  match m.fill d with
  | .error e => .error ⟨e.cause, a.setScope id (.method e.built)⟩
  | .ok m => .ok (id, a.setScope id (.method m))

/-- Builds methods one after another. -/
def buildMethods (a : Arena) (script : ScopeId) :
    List Description.Method → Except (Failure Arena) (List ScopeId × Arena)
  | [] => .ok ([], a)
  | d :: ds => do
    let (id, a) ← a.buildMethod script d
    let (ids, a) ← a.buildMethods script ds
    pure (id :: ids, a)

end Arena

/-- Builds a unit and gives the ids of its methods in the order of the description. -/
def Description.build (d : Description) (options : Options) :
    Except (Failure Arena) (List ScopeId × Arena) :=
  let (script, a) := (Arena.new options).newScript d.file 1
  a.buildMethods script d.methods

end MethodIR
