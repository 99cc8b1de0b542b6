import MethodIR.Instruction
import MethodIR.Options
import MethodIR.Parameter
import MethodIR.Scope.Header
import MethodIR.VariableTable

/-!
Scopes: a script at the root and methods below it. Each has its own frame of variables and stream of
instructions. A method also has a call signature, which follows from its instructions, and declared
parameters, which do not.
-/
namespace MethodIR

/-- What scripts and methods have in common. -/
structure Frame where
  header : Header
  locals : VariableTable
  instructions : List Instruction
deriving DecidableEq

structure Method extends Frame where
  isInstance : Bool
  signature : List Operand
  parameters : List Parameter
  traced : Bool
deriving DecidableEq

inductive Scope where
  | script (frame : Frame)
  | method (m : Method)
deriving DecidableEq

/-- What the parser knows of a scope: which scope was built from it. -/
structure StaticScope where
  id : StaticScopeId
  scope : Option ScopeId
deriving DecidableEq, Repr

/-- Frames are flat: a variable can only be asked for at depth zero. -/
inductive DepthError where
  | inMethod (method : String) (name : String) (depth : UInt32)
  | inScript (name : String) (depth : UInt32)
deriving DecidableEq, Repr

def DepthError.message : DepthError → String
  | .inMethod method name depth =>
    "local variable depth in method '" ++ method ++ "' must be 0, got " ++ toString depth ++
      " for '" ++ name ++ "'"
  | .inScript name depth =>
    "script scope has no enclosing frame: cannot resolve '" ++ name ++ "' at depth " ++
      toString depth

namespace Frame

/-- The root scope of a file. -/
def ofScript (id : ScopeId) (file : FileId) (line : UInt32) : Frame :=
  ⟨⟨id, none, "__file__", file, line, none⟩, .empty, []⟩

def request (f : Frame) (name : String) : LocalVariable × Frame :=
  let (v, locals) := f.locals.request name
  (v, { f with locals })

end Frame

namespace StaticScope

def new (id : StaticScopeId) : StaticScope := ⟨id, none⟩

/-- Remembers the scope that is built from it, unless the options say not to. -/
def link (s : StaticScope) (options : Options) (id : ScopeId) : StaticScope :=
  if options.irGenOnly then s else { s with scope := some id }

end StaticScope

namespace Method

/-- An empty method below `parent`, in the same file. -/
def new (id : ScopeId) (parent : Header) (name : String) (isInstance : Bool) (line : UInt32)
    (staticScope : Option StaticScopeId) (options : Options) : Method where
  header := ⟨id, some parent.id, name, parent.file, line, staticScope⟩
  locals := .empty
  instructions := []
  isInstance := isInstance
  signature := []
  parameters := []
  traced := options.traceSignature

def name (m : Method) : String := m.header.name

/-- Appends an instruction, and to the signature what it receives. -/
def append (m : Method) (i : Instruction) : Method :=
  { m with
    instructions := m.instructions ++ [i]
    signature := m.signature ++ i.signatureEntry?.toList }

def declare (m : Method) (p : Parameter) : Method :=
  { m with parameters := m.parameters ++ [p] }

/-- The variable called `name`, which gets a slot if it has none. -/
def request (m : Method) (name : String) : LocalVariable × Method :=
  let (v, frame) := m.toFrame.request name
  (v, { m with toFrame := frame })

/-- The variable that holds the block passed to the method. -/
def block (m : Method) : LocalVariable × Method := m.request blockName

/-- The variable called `name` at a depth. -/
def resolve (m : Method) (name : String) (depth : UInt32) :
    Except DepthError (LocalVariable × Method) :=
  if depth = 0 then .ok (m.request name) else .error (.inMethod m.name name depth)

end Method

namespace Scope

def frame : Scope → Frame
  | .script frame => frame
  | .method m => m.toFrame

def header (s : Scope) : Header := s.frame.header

def kind : Scope → String
  | .script _ => "Script"
  | .method _ => "Method"

def append (i : Instruction) : Scope → Scope
  | .script frame => .script { frame with instructions := frame.instructions ++ [i] }
  | .method m => .method (m.append i)

/-- Refuses a depth other than zero. -/
def checkDepth (s : Scope) (name : String) (depth : UInt32) : Except DepthError Unit :=
  if depth = 0 then .ok ()
  else match s with
    | .script _ => .error (.inScript name depth)
    | .method m => .error (.inMethod m.name name depth)

/-- Looks a name up at a depth, without giving it a slot. -/
def find? (s : Scope) (name : String) (depth : UInt32) :
    Except DepthError (Option LocalVariable) := do
  s.checkDepth name depth
  pure (s.frame.locals.find? name)

/-- The variable called `name` at a depth, which gets a slot if it has none. -/
def request (s : Scope) (name : String) (depth : UInt32) :
    Except DepthError (LocalVariable × Scope) := do
  s.checkDepth name depth
  match s with
  | .script frame =>
    let (v, frame) := frame.request name
    pure (v, .script frame)
  | .method m =>
    let (v, m) := m.request name
    pure (v, .method m)

end Scope

end MethodIR
