import MethodIR.Proofs.Arena.Change
import MethodIR.Scope.Summary

/-!
The operations on an arena as sequences of single looks and writes, in which a failure keeps all
that was written before it. They come to the same as the operations that put a new arena in the
place of the old one: every check stands in front of the first write.
-/
namespace MethodIR

/-- A computation that looks at an arena and writes to it as it goes, and may fail on the way. -/
abbrev Stepwise (α : Type) := ExceptT Arena.Error (StateM Arena) α

namespace Stepwise

variable {α β : Type} {a : Arena}

/-- The result, and the arena with all that was written. -/
def on (x : Stepwise α) (a : Arena) : Except Arena.Error α × Arena := (ExceptT.run x).run a

theorem on_bind (x : Stepwise α) (f : α → Stepwise β) (a : Arena) : (x >>= f).on a =
    match x.on a with
    | (.ok r, a) => (f r).on a
    | (.error e, a) => (.error e, a) := by
  simp only [on, ExceptT.run_bind, StateT.run_bind]
  rcases (ExceptT.run x).run a with ⟨_ | _, _⟩ <;> rfl

theorem on_pure (r : α) (a : Arena) : (pure r : Stepwise α).on a = (.ok r, a) := rfl

theorem on_get (a : Arena) : (get : Stepwise Arena).on a = (.ok a, a) := rfl

theorem on_modify (f : Arena → Arena) (a : Arena) :
    (modify f : Stepwise Unit).on a = (.ok (), f a) := rfl

/-! Looks. -/

def scope (id : ScopeId) : Stepwise Scope := do
  match (← get).scope? id with
  | none => throw (.unknownScope id)
  | some s => pure s

def method (id : ScopeId) : Stepwise Method := do
  match ← scope id with
  | .script _ => throw (.notAMethod id)
  | .method m => pure m

def summary (id : ScopeId) : Stepwise Summary := do
  let m ← method id
  match (← get).files.file? m.header.file with
  | none => throw (.unknownFile m.header.file)
  | some file => pure (m.summary file)

def staticScope (sid : StaticScopeId) : Stepwise StaticScope := do
  match (← get).staticScope? sid with
  | none => throw (.unknownStaticScope sid)
  | some ss => pure ss

/-- Stops at a depth other than zero. -/
def flat (s : Scope) (name : String) (depth : UInt32) : Stepwise Unit :=
  if depth = 0 then pure ()
  else match s with
    | .script _ => throw (.depth (.inScript name depth))
    | .method m => throw (.depth (.inMethod m.name name depth))

/-! Writes. -/

def write (id : ScopeId) (s : Scope) : Stepwise Unit := modify (·.setScope id s)

def push (s : Scope) : Stepwise Unit := modify fun a => { a with scopes := a.scopes ++ [s] }

/-- The file gets its id before the script gets its own. -/
def newScript (file : String) (line : UInt32) : Stepwise ScopeId := do
  let (f, files) := (← get).files.internFile file
  modify ({ · with files })
  let id := (← get).nextScopeId
  push (.script (.ofScript id f line))
  pure id

def newStaticScope : Stepwise StaticScopeId := do
  let sid : StaticScopeId := ⟨.ofNat (← get).staticScopes.length⟩
  modify fun a => { a with staticScopes := a.staticScopes ++ [.new sid] }
  pure sid

/-- The link is written before the method is there. -/
def newMethod (parent : ScopeId) (name : String) (isInstance : Bool) (line : UInt32)
    (sid? : Option StaticScopeId) : Stepwise ScopeId := do
  let id := (← get).nextScopeId
  let p ← scope parent
  match sid? with
  | none => pure ()
  | some sid =>
    let _ ← staticScope sid
    modify fun a => { a with staticScopes := a.linkStatic id (some sid) }
  push (.method (.new id p.header name isInstance line sid? (← get).options))
  pure id

/-- The entry of the signature is written before the instruction. -/
def append (id : ScopeId) (m : Method) (i : Instruction) : Stepwise Method := do
  let m :=
    match i.signatureEntry? with
    | none => m
    | some entry => { m with signature := m.signature ++ [entry] }
  write id (.method m)
  let m := { m with instructions := m.instructions ++ [i] }
  write id (.method m)
  pure m

/-- Only a name that is not bound yet is written. -/
def request (id : ScopeId) (s : Scope) (name : String) : Stepwise LocalVariable :=
  match s.frame.locals.find? name with
  | some v => pure v
  | none => do
    let (v, locals) := s.frame.locals.request name
    match s with
    | .script frame => write id (.script { frame with locals })
    | .method m => write id (.method { m with locals })
    pure v

def perform : Operation → Stepwise Reply
  | .newScript file line => .scope <$> newScript file line
  | .newStaticScope => .staticScope <$> newStaticScope
  | .newMethod parent name isInstance line sid? =>
    .scope <$> newMethod parent name isInstance line sid?
  | .append id i => do
    let m ← append id (← method id) i
    pure (.appended m.instructions.length m.signature)
  | .declare id p => do
    let m := (← method id).declare p
    write id (.method m)
    pure (.declared m.parameters)
  | .resolve id name depth => do
    let m ← method id
    flat (.method m) name depth
    .variable <$> request id (.method m) name
  | .block id => do
    let m ← method id
    .variable <$> request id (.method m) blockName
  | .add id i => do
    match (← get).scope? id with
    | none => pure .noScope
    | some (.script frame) =>
      let frame := { frame with instructions := frame.instructions ++ [i] }
      write id (.script frame)
      pure (.added frame.instructions.length)
    | some (.method m) =>
      let m ← append id m i
      pure (.added m.instructions.length)
  | .find id name depth => do
    match (← get).scope? id with
    | none => pure .noScope
    | some s =>
      flat s name depth
      pure (.found (s.frame.locals.find? name))
  | .request id name depth => do
    match (← get).scope? id with
    | none => pure .noScope
    | some s =>
      flat s name depth
      .variable <$> request id s name

theorem on_map (f : α → β) (x : Stepwise α) (a : Arena) :
    (f <$> x).on a = ((x.on a).1.map f, (x.on a).2) := by
  simp only [on, ExceptT.run_map, StateT.run_map]
  rcases (ExceptT.run x).run a with ⟨_ | _, _⟩ <;> rfl

theorem on_scope (id : ScopeId) (a : Arena) : (scope id).on a =
    match a.scope? id with
    | none => (.error (.unknownScope id), a)
    | some s => (.ok s, a) := by
  simp only [scope, on_bind, on_get]
  cases a.scope? id <;> rfl

theorem on_method (id : ScopeId) (a : Arena) : (method id).on a = (a.method? id, a) := by
  simp only [method, on_bind, on_scope, Arena.method?]
  cases a.scope? id with
  | none => rfl
  | some s => cases s <;> rfl

theorem on_summary (id : ScopeId) (a : Arena) : (summary id).on a = (a.summary? id, a) := by
  simp only [summary, on_bind, on_method, Arena.summary?, Arena.fileName?]
  cases a.method? id with
  | error e => rfl
  | ok m =>
    simp only [on_get, bind, Except.bind]
    cases a.files.file? m.header.file <;> rfl

theorem on_flat (s : Scope) (name : String) (depth : UInt32) (a : Arena) :
    (flat s name depth).on a = ((s.checkDepth name depth).mapError .depth, a) := by
  unfold flat Scope.checkDepth
  split
  · rfl
  · cases s <;> rfl

theorem on_newMethod (parent : ScopeId) (name : String) (isInstance : Bool) (line : UInt32)
    (sid? : Option StaticScopeId) (a : Arena) :
    (newMethod parent name isInstance line sid?).on a =
      match a.newMethod parent name isInstance line sid? with
      | .ok (id, a) => (.ok id, a)
      | .error e => (.error e, a) := by
  simp only [newMethod, on_bind, on_get, on_scope, Arena.newMethod]
  cases a.scope? parent with
  | none => rfl
  | some p =>
    cases sid? with
    | none => rfl
    | some sid =>
      simp only [staticScope, on_bind, on_get, Arena.checkStatic]
      cases a.staticScope? sid <;> rfl

theorem on_append (id : ScopeId) (m : Method) (i : Instruction) (a : Arena) :
    (append id m i).on a = (.ok (m.append i), a.setScope id (.method (m.append i))) := by
  simp only [append, on_bind, write, on_modify, on_pure, Arena.setScope_setScope, Method.append]
  cases i.signatureEntry? with
  | none => simp
  | some entry => rfl

theorem on_request (name : String) {id : ScopeId} {s s' : Scope} {v : LocalVariable}
    (h : a.scope? id = some s) (hr : s.request name 0 = .ok (v, s')) :
    (request id s name).on a = (.ok v, a.setScope id s') := by
  unfold request
  split
  · rename_i v' hv
    have hbound : s.request name 0 = .ok (v', s) := by
      cases s with
      | script frame =>
        have hold : frame.locals.request name = (v', frame.locals) :=
          VariableTable.request_of_find? hv
        change (Except.ok ((frame.locals.request name).1,
          Scope.script { frame with locals := (frame.locals.request name).2 }) : Except _ _) = _
        rw [hold]
      | method m =>
        have hold : m.locals.request name = (v', m.locals) :=
          VariableTable.request_of_find? hv
        change (Except.ok ((m.locals.request name).1,
          Scope.method { m with locals := (m.locals.request name).2 }) : Except _ _) = _
        rw [hold]
    cases hr.symm.trans hbound
    rw [on_pure, Arena.setScope_self h]
  · cases s <;> cases hr <;> rfl

/-- Step by step or at once, an operation gives the same answer and leaves the same arena. -/
theorem on_perform (op : Operation) (a : Arena) : (perform op).on a = a.perform op := by
  cases op with
  | newScript file line => rfl
  | newStaticScope => rfl
  | newMethod parent name isInstance line sid? =>
    simp only [perform, on_map, on_newMethod, Arena.perform, Arena.attempt]
    cases a.newMethod parent name isInstance line sid? <;> rfl
  | append id i =>
    simp only [perform, on_bind, on_method, Arena.perform, Arena.attempt, Arena.onMethod]
    cases hm : a.method? id with
    | error e => rfl
    | ok m =>
      simp only [on_append]
      rfl
  | declare id p =>
    simp only [perform, on_bind, on_method, Arena.perform, Arena.attempt, Arena.onMethod]
    cases a.method? id <;> rfl
  | resolve id name depth =>
    simp only [perform, on_bind, on_method, on_flat, on_map, Arena.perform, Arena.attempt,
      Arena.onMethod]
    cases hm : a.method? id with
    | error e => rfl
    | ok m =>
      by_cases hd : depth = 0
      · have hs := on_request name (Arena.method?_eq_ok_iff.1 hm) rfl
        simp only [Scope.checkDepth, Method.resolve, hd, if_true, mapError_ok, hs]
        rfl
      · simp only [Scope.checkDepth, Method.resolve, hd, if_false]
        rfl
  | block id =>
    simp only [perform, on_bind, on_method, on_map, Arena.perform, Arena.attempt, Arena.onMethod]
    cases hm : a.method? id with
    | error e => rfl
    | ok m =>
      have hs := on_request blockName (Arena.method?_eq_ok_iff.1 hm) rfl
      simp only [hs]
      rfl
  | add id i =>
    simp only [perform, on_bind, on_get, Arena.perform, Arena.attempt, Arena.onScope]
    cases hs : a.scope? id with
    | none => rfl
    | some s =>
      cases s with
      | script frame => rfl
      | method m =>
        simp only [on_bind, on_append]
        rfl
  | find id name depth =>
    simp only [perform, on_bind, on_get, Arena.perform, Arena.attempt, Arena.onScope]
    cases hs : a.scope? id with
    | none => rfl
    | some s =>
      simp only [on_bind, on_flat, Scope.find?]
      cases s.checkDepth name depth with
      | error e => rfl
      | ok u =>
        change _ = (Except.ok (Reply.found (s.frame.locals.find? name)), a.setScope id s)
        rw [Arena.setScope_self hs]
        rfl
  | request id name depth =>
    simp only [perform, on_bind, on_get, Arena.perform, Arena.attempt, Arena.onScope]
    cases hs : a.scope? id with
    | none => rfl
    | some s =>
      simp only [on_bind, on_flat, on_map]
      by_cases hd : depth = 0
      · subst hd
        cases s with
        | script frame =>
          have hs' := on_request name hs rfl
          simp only [Scope.checkDepth, if_true, mapError_ok, hs']
          rfl
        | method m =>
          have hs' := on_request name hs rfl
          simp only [Scope.checkDepth, if_true, mapError_ok, hs']
          rfl
      · simp only [Scope.checkDepth, Scope.request, hd, if_false]
        cases s <;> rfl

end Stepwise

end MethodIR
