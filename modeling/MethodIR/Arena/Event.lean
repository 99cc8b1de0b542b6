import MethodIR.Arena.Operation

/-! What a build tells an observer while it goes on. -/
namespace MethodIR

inductive Event where
  | scriptCreated (id : ScopeId) (file : String)
  | staticLinked (method : String) (id : ScopeId) (staticScope : StaticScopeId)
  | methodCreated (method : String) (id parent : ScopeId) (line : UInt32) (isInstance : Bool)
  | signatureEntry (method : String) (position : Nat) (entry : Operand)
  | unitBuilt (file : String) (methods : Nat)
deriving DecidableEq

namespace Event

def level : Event → String
  | .scriptCreated .. | .staticLinked .. | .methodCreated .. => "DEBUG"
  | .signatureEntry .. => "TRACE"
  | .unitBuilt .. => "INFO"

def message : Event → String
  | .scriptCreated .. => "created script scope"
  | .staticLinked .. => "back-linked static scope"
  | .methodCreated .. => "created method scope"
  | .signatureEntry .. => "call signature entry"
  | .unitBuilt .. => "built compilation unit"

def details : Event → List (String × Json)
  | .scriptCreated id file => [("id", .text id.text), ("file", .text file)]
  | .staticLinked method id staticScope =>
    [("method", .text method), ("id", .text id.text), ("static_scope", .text staticScope.text)]
  | .methodCreated method id parent line isInstance =>
    [("method", .text method), ("id", .text id.text), ("parent", .text parent.text),
      ("line", .nat line.toNat), ("is_instance_method", .boolean isInstance)]
  | .signatureEntry method position entry =>
    [("method", .text method), ("position", .nat position), ("entry", .text entry.render)]
  | .unitBuilt file methods => [("file", .text file), ("methods", .nat methods)]

end Event

namespace Method

/-- The events of the creation of a method. -/
def creationEvents (m : Method) (options : Options) : List Event :=
  (if options.irGenOnly then []
    else m.header.staticScope.toList.map (.staticLinked m.name m.header.id)) ++
    m.header.parent.toList.map fun parent =>
      .methodCreated m.name m.header.id parent m.header.line m.isInstance

/-- The events of the entries of the signature from a position on. -/
def signatureEvents (m : Method) (position : Nat) : List Event :=
  if m.traced then
    (m.signature.zipIdx.drop position).map fun (entry, i) => .signatureEntry m.name i entry
  else []

end Method

namespace Arena

/-- The events of the creation of a scope and of all that was appended to it. -/
def scopeEvents (a : Arena) : Scope → List Event
  | .script frame =>
    (a.files.file? frame.header.file).toList.map (.scriptCreated frame.header.id)
  | .method m => m.creationEvents a.options ++ m.signatureEvents 0

/-- The events of building one scope after another. -/
def events (a : Arena) : List Event := a.scopes.flatMap a.scopeEvents

/-- The events of one operation, from the arenas before and after it. -/
def eventsOf (before after : Arena) : Operation → List Event
  | .newScript _ _ | .newMethod .. =>
    (after.scopes.drop before.scopes.length).flatMap after.scopeEvents
  | .append id _ | .add id _ =>
    match before.method? id, after.method? id with
    | .ok m, .ok m' => m'.signatureEvents m.signature.length
    | _, _ => []
  | _ => []

end Arena

end MethodIR
