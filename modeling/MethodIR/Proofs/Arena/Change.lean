import MethodIR.Proofs.Method.Record
import MethodIR.Proofs.Result

/-! What an operation can do to an arena: create a scope at its end, or extend one in place. -/
namespace MethodIR

/-- All that `f` holds stands first in `f'`. -/
structure Frame.Extends (f f' : Frame) : Prop where
  header : f'.header = f.header
  names : f.locals.names <+: f'.locals.names
  instructions : f.instructions <+: f'.instructions

structure Method.Extends (m m' : Method) : Prop where
  frame : m.toFrame.Extends m'.toFrame
  isInstance : m'.isInstance = m.isInstance
  traced : m'.traced = m.traced
  signature : m.signature <+: m'.signature
  parameters : m.parameters <+: m'.parameters

/-- Scopes keep their kind and their header. -/
inductive Scope.Extends : Scope → Scope → Prop where
  | script {f f' : Frame} (h : f.Extends f') : Scope.Extends (.script f) (.script f')
  | method {m m' : Method} (h : m.Extends m') : Scope.Extends (.method m) (.method m')

theorem Method.extends_record (m : Method) (is : List Instruction) (ps : List Parameter)
    (names : List String) : m.Extends (m.record is ps names) where
  frame := ⟨rfl, m.locals.prefix_requestAll names, List.prefix_append _ _⟩
  isInstance := rfl
  traced := rfl
  signature := List.prefix_append _ _
  parameters := List.prefix_append _ _

namespace Scope

variable {s s' : Scope}

theorem extends_refl (s : Scope) : s.Extends s := by
  cases s with
  | script f => exact .script ⟨rfl, List.prefix_rfl, List.prefix_rfl⟩
  | method m => exact .method (by simpa using m.extends_record [] [] [])

theorem Extends.header_eq (h : s.Extends s') : s'.header = s.header := by
  cases h with
  | script h => exact h.header
  | method h => exact h.frame.header

theorem extends_append (s : Scope) (i : Instruction) : s.Extends (s.append i) := by
  cases s with
  | script f => exact .script ⟨rfl, List.prefix_rfl, List.prefix_append _ _⟩
  | method m => exact .method (m.append_eq_record i ▸ m.extends_record [i] [] [])

theorem extends_of_request {name : String} {depth : UInt32} {v : LocalVariable}
    (h : s.request name depth = .ok (v, s')) : s.Extends s' := by
  rw [request.eq_def] at h
  obtain ⟨⟨⟩, -, h⟩ := bind_eq_ok_iff.1 h
  cases s with
  | script f =>
    simp only [Frame.request, VariableTable.request_eq] at h
    cases h
    exact .script ⟨rfl, f.locals.prefix_requestAll [name], List.prefix_rfl⟩
  | method m =>
    simp only [m.request_eq_record] at h
    cases h
    exact .method (m.extends_record [] [] [name])

end Scope

namespace Operation

/-- The scope that an operation is on; those that create something are on none. -/
def target? : Operation → Option ScopeId
  | .newScript .. | .newStaticScope | .newMethod .. => none
  | .append id _ | .declare id _ | .resolve id _ _ | .block id | .add id _ | .find id _ _
  | .request id _ _ => some id

end Operation

namespace Arena

variable {a a' : Arena} {id : ScopeId} {m : Method} {op : Operation} {reply : Reply}

theorem method?_eq_ok_iff : a.method? id = .ok m ↔ a.scope? id = some (.method m) := by
  unfold method?
  split <;> simp_all

theorem setScope_self {s : Scope} (h : a.scope? id = some s) : a.setScope id s = a := by
  obtain ⟨hi, hs⟩ := List.getElem?_eq_some_iff.1 h
  simp only [setScope, ← hs, List.set_getElem_self]

theorem setScope_setScope (s s' : Scope) : (a.setScope id s).setScope id s' = a.setScope id s' := by
  simp [setScope]

theorem scope?_setScope {s : Scope} (h : a.scope? id = some s) (s' : Scope) :
    (a.setScope id s').scope? id = some s' := by
  obtain ⟨hi, -⟩ := List.getElem?_eq_some_iff.1 h
  simp [scope?, setScope, hi]

theorem onMethod_eq_ok_iff {step : Method → Except Error (Reply × Method)} :
    a.onMethod id step = .ok (reply, a') ↔ ∃ m m', a.scope? id = some (.method m) ∧
      step m = .ok (reply, m') ∧ a' = a.setScope id (.method m') := by
  simp only [onMethod, bind_eq_ok_iff, method?_eq_ok_iff]
  constructor
  · rintro ⟨m, hm, ⟨_, m'⟩, hs, hr⟩
    cases hr
    exact ⟨m, m', hm, hs, rfl⟩
  · rintro ⟨m, m', hm, hs, rfl⟩
    exact ⟨m, hm, (reply, m'), hs, rfl⟩

theorem onScope_eq_ok_iff {step : Scope → Except Error (Reply × Scope)} :
    a.onScope id step = .ok (reply, a') ↔
      (a.scope? id = none ∧ reply = .noScope ∧ a' = a) ∨
      ∃ s s', a.scope? id = some s ∧ step s = .ok (reply, s') ∧ a' = a.setScope id s' := by
  unfold onScope
  cases hs : a.scope? id with
  | none => simp [eq_comm]
  | some s =>
    simp only [bind_eq_ok_iff]
    constructor
    · rintro ⟨⟨_, s'⟩, hr, h⟩
      cases h
      exact .inr ⟨s, s', rfl, hr, rfl⟩
    · rintro (⟨h, -⟩ | ⟨s, s', h, hr, rfl⟩)
      · cases h
      · cases h
        exact ⟨(reply, s'), hr, rfl⟩

/-- The arena with a new method below a scope of header `p`. -/
def withMethod (a : Arena) (p : Header) (name : String) (isInstance : Bool) (line : UInt32)
    (staticScope : Option StaticScopeId) : Arena :=
  { a with
    scopes := a.scopes ++
      [.method (Method.new a.nextScopeId p name isInstance line staticScope a.options)]
    staticScopes := a.linkStatic a.nextScopeId staticScope }

theorem checkStatic_eq_ok_iff {staticScope : Option StaticScopeId} :
    a.checkStatic staticScope = .ok () ↔
      ∀ sid, staticScope = some sid → sid.index.toNat < a.staticScopes.length := by
  cases staticScope with
  | none => simp [checkStatic]
  | some sid =>
    by_cases h : sid.index.toNat < a.staticScopes.length <;> simp [checkStatic, staticScope?, h]

theorem newMethod_eq_ok_iff {parent : ScopeId} {name : String} {isInstance : Bool} {line : UInt32}
    {staticScope : Option StaticScopeId} :
    a.newMethod parent name isInstance line staticScope = .ok (id, a') ↔
      ∃ p, a.scope? parent = some p ∧
        (∀ sid, staticScope = some sid → sid.index.toNat < a.staticScopes.length) ∧
        id = a.nextScopeId ∧ a' = a.withMethod p.header name isInstance line staticScope := by
  rw [← checkStatic_eq_ok_iff, newMethod]
  cases hp : a.scope? parent with
  | none => simp
  | some p =>
    simp only [bind_eq_ok_iff]
    constructor
    · rintro ⟨⟨⟩, hc, h⟩
      cases h
      exact ⟨p, rfl, hc, rfl, rfl⟩
    · rintro ⟨_, h, hc, rfl, rfl⟩
      cases h
      exact ⟨(), hc, rfl⟩

/-- All that a successful operation can do. -/
inductive Change (a : Arena) : Operation → Reply → Arena → Prop where
  | newScript (file : String) (line : UInt32) :
    Change a (.newScript file line) (.scope a.nextScopeId) (a.newScript file line).2
  | newStaticScope :
    Change a .newStaticScope (.staticScope a.newStaticScope.1) a.newStaticScope.2
  | newMethod {parent : ScopeId} {p : Scope} {name : String} {isInstance : Bool} {line : UInt32}
      {staticScope : Option StaticScopeId} (hp : a.scope? parent = some p)
      (hs : ∀ sid, staticScope = some sid → sid.index.toNat < a.staticScopes.length) :
    Change a (.newMethod parent name isInstance line staticScope) (.scope a.nextScopeId)
      (a.withMethod p.header name isInstance line staticScope)
  | missing {op : Operation} {id : ScopeId} (ht : op.target? = some id)
      (hs : a.scope? id = none) : Change a op .noScope a
  | extended {op : Operation} {id : ScopeId} {reply : Reply} {s s' : Scope}
      (ht : op.target? = some id) (hs : a.scope? id = some s) (he : s.Extends s') :
    Change a op reply (a.setScope id s')

theorem change_of_attempt (h : a.attempt op = .ok (reply, a')) : a.Change op reply a' := by
  cases op with
  | newScript file line => cases h; exact .newScript file line
  | newStaticScope => cases h; exact .newStaticScope
  | newMethod parent name isInstance line staticScope =>
    obtain ⟨⟨id, a''⟩, hn, h⟩ := bind_eq_ok_iff.1 h
    cases h
    obtain ⟨p, hp, hs, rfl, rfl⟩ := newMethod_eq_ok_iff.1 hn
    exact .newMethod hp hs
  | append id i =>
    obtain ⟨m, m', hm, hs, rfl⟩ := onMethod_eq_ok_iff.1 h
    cases hs
    exact .extended rfl hm (Scope.extends_append (.method m) i)
  | declare id p =>
    obtain ⟨m, m', hm, hs, rfl⟩ := onMethod_eq_ok_iff.1 h
    cases hs
    exact .extended rfl hm (.method (m.declare_eq_record p ▸ m.extends_record [] [p] []))
  | resolve id name depth =>
    obtain ⟨m, m', hm, hs, rfl⟩ := onMethod_eq_ok_iff.1 h
    refine .extended rfl hm (.method ?_)
    by_cases hd : depth = 0
    · simp only [Method.resolve, hd, if_pos, m.request_eq_record] at hs
      cases hs
      exact m.extends_record [] [] [name]
    · simp only [Method.resolve, if_neg hd] at hs
      cases hs
  | block id =>
    obtain ⟨m, m', hm, hs, rfl⟩ := onMethod_eq_ok_iff.1 h
    simp only [m.block_eq_record] at hs
    cases hs
    exact .extended rfl hm (.method (m.extends_record [] [] [blockName]))
  | add id i =>
    obtain ⟨hm, rfl, rfl⟩ | ⟨s, s', hm, hs, rfl⟩ := onScope_eq_ok_iff.1 h
    · exact .missing rfl hm
    · cases hs
      exact .extended rfl hm (s.extends_append i)
  | find id name depth =>
    obtain ⟨hm, rfl, rfl⟩ | ⟨s, s', hm, hs, rfl⟩ := onScope_eq_ok_iff.1 h
    · exact .missing rfl hm
    · obtain ⟨v, -, hs⟩ := bind_eq_ok_iff.1 hs
      cases hs
      exact .extended rfl hm s.extends_refl
  | request id name depth =>
    obtain ⟨hm, rfl, rfl⟩ | ⟨s, s', hm, hs, rfl⟩ := onScope_eq_ok_iff.1 h
    · exact .missing rfl hm
    · obtain ⟨⟨v, s''⟩, hr, hs⟩ := bind_eq_ok_iff.1 hs
      cases hs
      exact .extended rfl hm (Scope.extends_of_request (mapError_eq_ok_iff.1 hr))

end Arena

end MethodIR
