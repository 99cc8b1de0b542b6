import MethodIR.Scope.Summary

/-!
All scopes and static scopes of a compilation unit. They refer to one another by their places in the
arena; nothing is ever removed.
-/
namespace MethodIR

structure Arena where
  options : Options
  files : StringTable
  scopes : List Scope
  staticScopes : List StaticScope
deriving DecidableEq

namespace Arena

inductive Error where
  | unknownScope (id : ScopeId)
  | notAMethod (id : ScopeId)
  | unknownStaticScope (id : StaticScopeId)
  | unknownFile (file : FileId)
  | depth (e : DepthError)
deriving DecidableEq, Repr

def Error.message : Error → String
  | .unknownScope id => "unknown scope " ++ id.text
  | .notAMethod id => id.text ++ " is not a method scope"
  | .unknownStaticScope id => "unknown static scope " ++ id.text
  | .unknownFile file => "unknown source file " ++ file.text
  | .depth e => e.message

def new (options : Options) : Arena := ⟨options, .empty, [], []⟩

def scope? (a : Arena) (id : ScopeId) : Option Scope := a.scopes[id.index.toNat]?

def staticScope? (a : Arena) (id : StaticScopeId) : Option StaticScope :=
  a.staticScopes[id.index.toNat]?

def method? (a : Arena) (id : ScopeId) : Except Error Method :=
  match a.scope? id with
  | none => .error (.unknownScope id)
  | some (.script _) => .error (.notAMethod id)
  | some (.method m) => .ok m

/-- All methods in the order of their creation. -/
def methods (a : Arena) : List Method :=
  a.scopes.filterMap fun
    | .script _ => none
    | .method m => some m

/-- The scope built from a static scope, once there is one. -/
def scopeForStatic? (a : Arena) (id : StaticScopeId) : Option ScopeId := do
  (← a.staticScope? id).scope

def fileName? (a : Arena) (file : FileId) : Except Error String :=
  match a.files.file? file with
  | none => .error (.unknownFile file)
  | some name => .ok name

def summary? (a : Arena) (id : ScopeId) : Except Error Summary := do
  let m ← a.method? id
  pure (m.summary (← a.fileName? m.header.file))

def nextScopeId (a : Arena) : ScopeId := ⟨.ofNat a.scopes.length⟩

/-- Creates the root scope of a file. -/
def newScript (a : Arena) (file : String) (line : UInt32) : ScopeId × Arena :=
  let (f, files) := a.files.internFile file
  (a.nextScopeId,
    { a with files, scopes := a.scopes ++ [.script (.ofScript a.nextScopeId f line)] })

def newStaticScope (a : Arena) : StaticScopeId × Arena :=
  let id : StaticScopeId := ⟨.ofNat a.staticScopes.length⟩
  (id, { a with staticScopes := a.staticScopes ++ [.new id] })

/-- Refuses a static scope that is not there. -/
def checkStatic (a : Arena) : Option StaticScopeId → Except Error Unit
  | none => .ok ()
  | some id => if (a.staticScope? id).isSome then .ok () else .error (.unknownStaticScope id)

/-- The static scopes with a link from one of them to a scope. -/
def linkStatic (a : Arena) (scope : ScopeId) : Option StaticScopeId → List StaticScope
  | none => a.staticScopes
  | some id => a.staticScopes.modify id.index.toNat (·.link a.options scope)

/-- Begins a method below `parent`. Nothing changes unless the parent and the static scope are
there. -/
def newMethod (a : Arena) (parent : ScopeId) (name : String) (isInstance : Bool) (line : UInt32)
    (staticScope : Option StaticScopeId) : Except Error (ScopeId × Arena) :=
  match a.scope? parent with
  | none => .error (.unknownScope parent)
  | some p => do
    a.checkStatic staticScope
    let m := Method.new a.nextScopeId p.header name isInstance line staticScope a.options
    pure (a.nextScopeId,
      { a with
        scopes := a.scopes ++ [.method m]
        staticScopes := a.linkStatic a.nextScopeId staticScope })

/-- Puts a scope in the place of the one with that id. -/
def setScope (a : Arena) (id : ScopeId) (s : Scope) : Arena :=
  { a with scopes := a.scopes.set id.index.toNat s }

end Arena

end MethodIR
