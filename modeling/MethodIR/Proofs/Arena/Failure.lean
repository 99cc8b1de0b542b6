import MethodIR.Proofs.Arena.Stepwise

/-!
Calls that fail. What stands in the way of a call is said without performing it; a call that fails
leaves the arena as it was, so that it could as well not have been made.
-/
namespace MethodIR

/-- A call of a front end: an operation, or a request for a method or its summary. -/
inductive Call where
  | operate (op : Operation)
  | method (id : ScopeId)
  | summary (id : ScopeId)

inductive Answer where
  | reply (r : Reply)
  | method (m : Method)
  | summary (s : Summary)

/-- The answers of a failed call. Operations on scopes of any kind have an answer of their own for a
scope that is not there. -/
def Answer.failed : Except Arena.Error Answer → Bool
  | .error _ | .ok (.reply .noScope) => true
  | .ok _ => false

def Call.process : Call → Stepwise Answer
  | .operate op => .reply <$> Stepwise.perform op
  | .method id => .method <$> Stepwise.method id
  | .summary id => .summary <$> Stepwise.summary id

/-- Calls with their answers. -/
abbrev Transcript := List (Call × Except Arena.Error Answer)

namespace Transcript

/-- `t'` is `t` without some of the calls that failed. -/
inductive Trims : Transcript → Transcript → Prop where
  | nil : Trims [] []
  | keep {t t' : Transcript} (e : Call × Except Arena.Error Answer) (h : Trims t t') :
    Trims (e :: t) (e :: t')
  | drop {t t' : Transcript} {e : Call × Except Arena.Error Answer} (hf : Answer.failed e.2)
      (h : Trims t t') : Trims (e :: t) t'

/-- The calls that did not fail. -/
def successes (t : Transcript) : Transcript := t.filter fun e => !Answer.failed e.2

theorem trims_successes (t : Transcript) : Trims t (successes t) := by
  induction t with
  | nil => exact .nil
  | cons e t ih =>
    cases hf : Answer.failed e.2 with
    | true =>
      have he : successes (e :: t) = successes t := List.filter_cons_of_neg (by simp [hf])
      exact he ▸ .drop hf ih
    | false =>
      have he : successes (e :: t) = e :: successes t := List.filter_cons_of_pos (by simp [hf])
      exact he ▸ .keep e ih

end Transcript

namespace Arena

variable {a a' : Arena} {op : Operation} {id : ScopeId}

/-- The answer to a call and the arena after it, with all that was written before a failure. -/
def serve (a : Arena) (c : Call) : Except Error Answer × Arena := c.process.on a

/-- Serves calls one after another. -/
def serveAll (a : Arena) : List Call → Transcript × Arena
  | [] => ([], a)
  | c :: cs =>
    let (answer, a) := a.serve c
    let (t, a) := serveAll a cs
    ((c, answer) :: t, a)

/-- What stands in the way of a call. -/
def Blocks (a : Arena) : Call → Prop
  | .operate (.newScript _ _) | .operate .newStaticScope => False
  | .operate (.newMethod parent _ _ _ staticScope) =>
    a.scope? parent = none ∨ ∃ sid, staticScope = some sid ∧ a.staticScope? sid = none
  | .operate (.append id _) | .operate (.declare id _) | .operate (.block id) | .method id =>
    ∀ m, a.scope? id ≠ some (.method m)
  | .operate (.resolve id _ depth) => (∀ m, a.scope? id ≠ some (.method m)) ∨ depth ≠ 0
  | .operate (.add id _) => a.scope? id = none
  | .operate (.find id _ depth) | .operate (.request id _ depth) =>
    a.scope? id = none ∨ depth ≠ 0
  | .summary id => ∀ m, a.scope? id = some (.method m) → a.files.file? m.header.file = none

theorem serve_operate (a : Arena) (op : Operation) :
    a.serve (.operate op) = ((a.perform op).1.map .reply, (a.perform op).2) := by
  rw [serve, Call.process, Stepwise.on_map, Stepwise.on_perform]

theorem serve_method (a : Arena) (id : ScopeId) :
    a.serve (.method id) = ((a.method? id).map .method, a) := by
  rw [serve, Call.process, Stepwise.on_map, Stepwise.on_method]

theorem serve_summary (a : Arena) (id : ScopeId) :
    a.serve (.summary id) = ((a.summary? id).map .summary, a) := by
  rw [serve, Call.process, Stepwise.on_map, Stepwise.on_summary]

theorem serveAll_cons (a : Arena) (c : Call) (cs : List Call) : a.serveAll (c :: cs) =
    ((c, (a.serve c).1) :: ((a.serve c).2.serveAll cs).1, ((a.serve c).2.serveAll cs).2) := rfl

/-- The answer that a scope is not there comes from operations that have looked for it only. -/
theorem eq_of_attempt_noScope (h : a.attempt op = .ok (.noScope, a')) : a' = a := by
  cases op with
  | newScript | newStaticScope => cases h
  | newMethod =>
    obtain ⟨r, -, h⟩ := bind_eq_ok_iff.1 h
    cases h
  | append | declare | block =>
    obtain ⟨m, m', -, hs, -⟩ := onMethod_eq_ok_iff.1 h
    cases hs
  | resolve =>
    obtain ⟨m, m', -, hs, -⟩ := onMethod_eq_ok_iff.1 h
    obtain ⟨r, -, hs⟩ := bind_eq_ok_iff.1 hs
    cases hs
  | add =>
    obtain ⟨-, -, rfl⟩ | ⟨s, s', -, hs, -⟩ := onScope_eq_ok_iff.1 h
    · rfl
    · cases hs
  | find | request =>
    obtain ⟨-, -, rfl⟩ | ⟨s, s', -, hs, -⟩ := onScope_eq_ok_iff.1 h
    · rfl
    · obtain ⟨r, -, hs⟩ := bind_eq_ok_iff.1 hs
      cases hs

theorem serve_of_failed {c : Call} (h : Answer.failed (a.serve c).1) : (a.serve c).2 = a := by
  cases c with
  | method id => rw [serve_method]
  | summary id => rw [serve_summary]
  | operate op =>
    rw [serve_operate, perform] at h
    rw [serve_operate, perform]
    cases ha : a.attempt op with
    | error e => rfl
    | ok r =>
      obtain ⟨reply, a'⟩ := r
      rw [ha] at h
      cases reply with
      | noScope => exact eq_of_attempt_noScope ha
      | _ => cases h

/-- The calls that are left have the answers they had, and leave the same arena. -/
theorem serveAll_of_trims {cs : List Call} {t : Transcript}
    (h : Transcript.Trims (a.serveAll cs).1 t) :
    a.serveAll (t.map (·.1)) = (t, (a.serveAll cs).2) := by
  induction cs generalizing a t with
  | nil =>
    cases h
    rfl
  | cons c cs ih =>
    rw [serveAll_cons] at h ⊢
    generalize hs : a.serve c = r at h
    cases h with
    | keep _ h =>
      have hrest := ih h
      rw [List.map_cons, serveAll_cons, hs, hrest]
    | drop hf h =>
      subst hs
      rw [serve_of_failed hf] at h ⊢
      exact ih h

/-- The parent is looked for first. -/
theorem newMethod_of_parent {parent : ScopeId} (name : String) (isInstance : Bool) (line : UInt32)
    (staticScope : Option StaticScopeId) (h : a.scope? parent = none) :
    a.newMethod parent name isInstance line staticScope = .error (.unknownScope parent) := by
  rw [newMethod, h]

theorem newMethod_of_staticScope {parent : ScopeId} {p : Scope} (name : String) (isInstance : Bool)
    (line : UInt32) {sid : StaticScopeId} (hp : a.scope? parent = some p)
    (hs : a.staticScope? sid = none) :
    a.newMethod parent name isInstance line (some sid) = .error (.unknownStaticScope sid) := by
  rw [newMethod, hp]
  simp only [checkStatic, hs]
  rfl

theorem newMethod_ne_ok_iff {parent : ScopeId} {name : String} {isInstance : Bool} {line : UInt32}
    {staticScope : Option StaticScopeId} :
    (∀ id a', a.newMethod parent name isInstance line staticScope ≠ .ok (id, a')) ↔
      a.scope? parent = none ∨ ∃ sid, staticScope = some sid ∧ a.staticScope? sid = none := by
  constructor
  · intro h
    by_contra hb
    rw [not_or] at hb
    obtain ⟨p, hp⟩ := Option.ne_none_iff_exists'.1 hb.1
    have hsid : ∀ sid, staticScope = some sid → sid.index.toNat < a.staticScopes.length := by
      intro sid hs
      by_contra hlt
      exact hb.2 ⟨sid, hs, List.getElem?_eq_none (Nat.le_of_not_lt hlt)⟩
    exact h _ _ (newMethod_eq_ok_iff.2 ⟨p, hp, hsid, rfl, rfl⟩)
  · rintro (hp | ⟨sid, rfl, hs⟩) id a' hnew
    · cases (newMethod_of_parent name isInstance line staticScope hp).symm.trans hnew
    · obtain ⟨p, hp, -⟩ := newMethod_eq_ok_iff.1 hnew
      cases (newMethod_of_staticScope name isInstance line hp hs).symm.trans hnew

theorem failed_operate_iff : Answer.failed (a.serve (.operate op)).1 ↔
    ∀ reply a', a.attempt op = .ok (reply, a') → reply = .noScope := by
  rw [serve_operate, perform]
  cases ha : a.attempt op with
  | error e =>
    refine iff_of_true rfl fun reply a' h => ?_
    cases h
  | ok r =>
    obtain ⟨reply, a'⟩ := r
    constructor
    · intro hf reply' a'' h
      cases h
      cases reply with
      | noScope => rfl
      | _ => cases hf
    · intro h
      cases h reply a' rfl
      rfl

theorem checkDepth_eq_ok_iff {s : Scope} {name : String} {depth : UInt32} :
    s.checkDepth name depth = .ok () ↔ depth = 0 := by
  unfold Scope.checkDepth
  by_cases hd : depth = 0
  · simp [hd]
  · cases s <;> simp [hd]

/-- An operation fails if and only if something stands in its way. -/
theorem failed_operate_iff_blocks :
    Answer.failed (a.serve (.operate op)).1 ↔ a.Blocks (.operate op) := by
  rw [failed_operate_iff]
  cases op with
  | newScript | newStaticScope => exact iff_of_false (fun h => nomatch h _ _ rfl) id
  | newMethod parent name isInstance line staticScope =>
    rw [Blocks, ← newMethod_ne_ok_iff]
    constructor
    · intro h id a' hnew
      cases h _ _ (bind_eq_ok_iff.2 ⟨_, hnew, rfl⟩)
    · intro h reply a' hr
      obtain ⟨⟨id, a''⟩, hnew, -⟩ := bind_eq_ok_iff.1 hr
      exact (h id a'' hnew).elim
  | append | declare | block =>
    constructor
    · intro h m hm
      cases h _ _ (onMethod_eq_ok_iff.2 ⟨m, _, hm, rfl, rfl⟩)
    · intro h reply a' hr
      obtain ⟨m, _, hm, -⟩ := onMethod_eq_ok_iff.1 hr
      exact (h m hm).elim
  | resolve id name depth =>
    constructor
    · intro h
      by_contra hb
      simp only [Blocks, not_or, not_forall, not_not] at hb
      obtain ⟨⟨m, hm⟩, rfl⟩ := hb
      cases h _ _ (onMethod_eq_ok_iff.2 ⟨m, _, hm, rfl, rfl⟩)
    · intro hb reply a' hr
      obtain ⟨m, m', hm, hs, -⟩ := onMethod_eq_ok_iff.1 hr
      obtain ⟨r, hr, -⟩ := bind_eq_ok_iff.1 hs
      rcases hb with hb | hd
      · exact (hb m hm).elim
      · rw [mapError_eq_ok_iff, Method.resolve, if_neg hd] at hr
        cases hr
  | add id i =>
    constructor
    · intro h
      by_contra hb
      obtain ⟨s, hs⟩ := Option.ne_none_iff_exists'.1 hb
      cases h _ _ (onScope_eq_ok_iff.2 (.inr ⟨s, _, hs, rfl, rfl⟩))
    · intro hb reply a' hr
      obtain ⟨-, rfl, -⟩ | ⟨s, _, hs, -⟩ := onScope_eq_ok_iff.1 hr
      · rfl
      · cases hs.symm.trans hb
  | find id name depth | request id name depth =>
    constructor
    · intro h
      by_contra hb
      rw [Blocks, not_or, not_not] at hb
      obtain ⟨hne, rfl⟩ := hb
      obtain ⟨s, hs⟩ := Option.ne_none_iff_exists'.1 hne
      cases s <;> cases h _ _ (onScope_eq_ok_iff.2 (.inr ⟨_, _, hs, rfl, rfl⟩))
    · intro hb reply a' hr
      obtain ⟨-, rfl, -⟩ | ⟨s, _, hs, hstep, -⟩ := onScope_eq_ok_iff.1 hr
      · rfl
      · obtain ⟨r, hr, -⟩ := bind_eq_ok_iff.1 hstep
        obtain ⟨⟨⟩, hd, -⟩ := bind_eq_ok_iff.1 (mapError_eq_ok_iff.1 hr)
        rcases hb with hn | hne
        · cases hs.symm.trans hn
        · exact (hne (checkDepth_eq_ok_iff.1 hd)).elim

/-- A call fails if and only if something stands in its way. -/
theorem failed_iff_blocks (a : Arena) (c : Call) : Answer.failed (a.serve c).1 ↔ a.Blocks c := by
  cases c with
  | operate op => exact failed_operate_iff_blocks
  | method id =>
    rw [serve_method, Blocks]
    cases hm : a.method? id with
    | ok m => exact iff_of_false Bool.false_ne_true fun h => h m (method?_eq_ok_iff.1 hm)
    | error e =>
      refine iff_of_true rfl fun m hs => ?_
      cases hm.symm.trans (method?_eq_ok_iff.2 hs)
  | summary id =>
    rw [serve_summary, Blocks, summary?]
    cases hm : a.method? id with
    | ok m =>
      have hs := method?_eq_ok_iff.1 hm
      simp only [fileName?, bind, Except.bind]
      cases hf : a.files.file? m.header.file with
      | none =>
        refine iff_of_true rfl fun m' hs' => ?_
        cases hs.symm.trans hs'
        exact hf
      | some file =>
        refine iff_of_false Bool.false_ne_true fun h => ?_
        cases hf.symm.trans (h m hs)
    | error e =>
      refine iff_of_true rfl fun m hs => ?_
      cases hm.symm.trans (method?_eq_ok_iff.2 hs)

/-- A call that fails leaves the arena as it is, although all that was written before the failure
would be kept. Whichever failing calls are left out of a sequence, one or all, the others get the
answers they had, and the same arena is left. A new method is refused for its parent first, and a
variable of a scope for its depth only, whether its name is bound or not. -/
theorem failure_leaves_no_trace (a : Arena) :
    (∀ op, a.serve (.operate op) = ((a.perform op).1.map .reply, (a.perform op).2)) ∧
    (∀ c, Answer.failed (a.serve c).1 ↔ a.Blocks c) ∧
    (∀ c, a.Blocks c → (a.serve c).2 = a) ∧
    (∀ cs t, Transcript.Trims (a.serveAll cs).1 t →
      a.serveAll (t.map (·.1)) = (t, (a.serveAll cs).2)) ∧
    (∀ cs, let t := Transcript.successes (a.serveAll cs).1
      a.serveAll (t.map (·.1)) = (t, (a.serveAll cs).2)) ∧
    (∀ parent name isInstance line staticScope,
      let answer := (a.serve (.operate (.newMethod parent name isInstance line staticScope))).1
      (a.scope? parent = none → answer = .error (.unknownScope parent)) ∧
      ∀ p sid, a.scope? parent = some p → staticScope = some sid → a.staticScope? sid = none →
        answer = .error (.unknownStaticScope sid)) ∧
    ∀ id s name depth, a.scope? id = some s →
      (Answer.failed (a.serve (.operate (.find id name depth))).1 ↔ depth ≠ 0) ∧
      (Answer.failed (a.serve (.operate (.request id name depth))).1 ↔ depth ≠ 0) ∧
      ∀ m, s = .method m →
        (Answer.failed (a.serve (.operate (.resolve id name depth))).1 ↔ depth ≠ 0) := by
  refine ⟨a.serve_operate, a.failed_iff_blocks, ?_, fun cs t => serveAll_of_trims, ?_, ?_, ?_⟩
  · intro c hb
    exact serve_of_failed ((a.failed_iff_blocks c).2 hb)
  · intro cs
    exact serveAll_of_trims (Transcript.trims_successes _)
  · intro parent name isInstance line staticScope
    rw [serve_operate]
    constructor
    · intro hp
      rw [perform, attempt, newMethod_of_parent name isInstance line staticScope hp]
      rfl
    · rintro p sid hp rfl hs
      rw [perform, attempt, newMethod_of_staticScope name isInstance line hp hs]
      rfl
  · intro id s name depth hs
    have hthere : a.scope? id ≠ none := Option.ne_none_iff_exists'.2 ⟨s, hs⟩
    refine ⟨?_, ?_, ?_⟩
    · rw [failed_iff_blocks]
      exact or_iff_right hthere
    · rw [failed_iff_blocks]
      exact or_iff_right hthere
    · rintro m rfl
      rw [failed_iff_blocks]
      exact or_iff_right fun hnone => hnone m hs

/-- Calls on an arena that holds a script: the name is bound and then asked for at another depth, a
method is put below a scope that is not there, and the script is taken for a method. -/
theorem failure_leaves_no_trace_script :
    let a := ((new .default).perform (.newScript "a.rb" 1)).2
    let calls : List Call := [.operate (.request ⟨0⟩ "x" 0), .operate (.request ⟨0⟩ "x" 1),
      .operate (.newMethod ⟨7⟩ "m" true 1 (some ⟨3⟩)), .method ⟨0⟩, .operate (.find ⟨0⟩ "y" 0)]
    let t := (a.serveAll calls).1
    t.map (Answer.failed ·.2) = [false, true, true, true, false] ∧
    a.serveAll ((Transcript.successes t).map (·.1)) =
      (Transcript.successes t, (a.serveAll calls).2) ∧
    (a.serve (.method ⟨0⟩)).2 = a ∧
    (a.serve (.operate (.newMethod ⟨7⟩ "m" true 1 (some ⟨3⟩)))).1 = .error (.unknownScope ⟨7⟩) ∧
    (a.serve (.operate (.newMethod ⟨0⟩ "m" true 1 (some ⟨3⟩)))).1 =
      .error (.unknownStaticScope ⟨3⟩) ∧
    Answer.failed (a.serve (.operate (.request ⟨0⟩ "x" 1))).1 := by
  intro a calls t
  obtain ⟨-, -, hkept, htrims, -, hnew, hdepth⟩ := failure_leaves_no_trace a
  have hscope : ∃ s, a.scope? ⟨0⟩ = some s := ⟨_, rfl⟩
  obtain ⟨s, hs⟩ := hscope
  have hblocks : a.Blocks (.method ⟨0⟩) := by
    intro m hm
    cases hm
  refine ⟨rfl, ?_, hkept _ hblocks, ?_, ?_, ?_⟩
  · exact htrims calls _ (Transcript.trims_successes t)
  · exact (hnew ⟨7⟩ "m" true 1 (some ⟨3⟩)).1 rfl
  · exact (hnew ⟨0⟩ "m" true 1 (some ⟨3⟩)).2 s ⟨3⟩ hs rfl rfl
  · exact (hdepth ⟨0⟩ s "x" 1 hs).2.1.2 (by decide)

end Arena

end MethodIR
