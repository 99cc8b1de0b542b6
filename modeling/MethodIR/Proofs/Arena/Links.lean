import MethodIR.Proofs.Arena.Persistence

/-!
Links between static scopes and methods. A method keeps the static scope that it was created with.
The static scope is linked to the method that was created with it last, unless links are left out.
-/
namespace MethodIR

namespace Arena

/-- The scope that an operation created for a static scope, read off it and its answer. -/
def createdFor? (sid : StaticScopeId) : Operation × Except Error Reply → Option ScopeId
  | (.newMethod _ _ _ _ staticScope, .ok (.scope id)) =>
    if staticScope = some sid then some id else none
  | _ => none

variable {a a' : Arena} {op : Operation} {reply : Reply} {ops : List Operation}

theorem scopeForStatic?_new (o : Options) (sid : StaticScopeId) :
    (new o).scopeForStatic? sid = none := by
  simp [scopeForStatic?, staticScope?, new]

/-- A successful operation writes at most the link of the static scope that it names. -/
theorem Change.scopeForStatic?_eq (h : a.Change op reply a') (sid : StaticScopeId) :
    a'.scopeForStatic? sid = if a.options.irGenOnly then a.scopeForStatic? sid
      else (createdFor? sid (op, .ok reply)).or (a.scopeForStatic? sid) := by
  cases h with
  | newScript file line => exact (ite_self (a.scopeForStatic? sid)).symm
  | missing ht hs =>
    cases op <;> cases ht
    all_goals exact (ite_self (a.scopeForStatic? sid)).symm
  | extended ht hs he =>
    cases op <;> cases ht
    all_goals exact (ite_self (a.scopeForStatic? sid)).symm
  | newStaticScope =>
    have hlink : a.newStaticScope.2.scopeForStatic? sid = a.scopeForStatic? sid := by
      change ((a.staticScopes ++ [StaticScope.new _])[sid.index.toNat]?).bind _ = _
      rcases Nat.lt_trichotomy sid.index.toNat a.staticScopes.length with hlt | heq | hgt
      · rw [List.getElem?_append_left hlt]
        rfl
      · have hnone : a.staticScope? sid = none := List.getElem?_eq_none (Nat.le_of_eq heq.symm)
        rw [heq, List.getElem?_concat_length, scopeForStatic?, hnone]
        rfl
      · have hnone : a.staticScope? sid = none := List.getElem?_eq_none (Nat.le_of_lt hgt)
        rw [List.getElem?_eq_none (by rw [List.length_append]; exact hgt), scopeForStatic?, hnone]
        rfl
    rw [hlink]
    exact (ite_self (a.scopeForStatic? sid)).symm
  | @newMethod _ p _ _ _ staticScope hp hs =>
    have hlink := a.getElem?_linkStatic a.nextScopeId staticScope sid
    change ((a.linkStatic a.nextScopeId staticScope)[sid.index.toNat]?).bind _ = _
    rw [hlink, scopeForStatic?, createdFor?]
    by_cases hsid : staticScope = some sid
    · obtain ⟨ss, hss⟩ := staticScope?_of_lt (hs sid hsid)
      simp only [hss, hsid, if_true, Option.map_some, ss.link_eq]
      split <;> rfl
    · simp [hsid]

/-- After a run a static scope is linked to the scope that was created for it last. -/
theorem scopeForStatic?_run (a : Arena) (ops : List Operation) (sid : StaticScopeId) :
    (a.run ops).2.scopeForStatic? sid = if a.options.irGenOnly then a.scopeForStatic? sid
      else ((ops.zip (a.run ops).1).filterMap (createdFor? sid)).getLast?.or
        (a.scopeForStatic? sid) := by
  induction ops generalizing a with
  | nil => exact (ite_self (a.scopeForStatic? sid)).symm
  | cons op ops ih =>
    have hstep : (a.perform op).2.scopeForStatic? sid =
        if a.options.irGenOnly then a.scopeForStatic? sid
        else (createdFor? sid (op, (a.perform op).1)).or (a.scopeForStatic? sid) := by
      cases hr : a.attempt op with
      | error e =>
        have hnone : createdFor? sid (op, .error e) = none := by cases op <;> rfl
        simp only [perform, hr, hnone, Option.none_or, ite_self]
      | ok r => simpa only [perform, hr] using (change_of_attempt hr).scopeForStatic?_eq sid
    have hrun : a.run (op :: ops) = ((a.perform op).1 :: ((a.perform op).2.run ops).1,
        ((a.perform op).2.run ops).2) := rfl
    rw [hrun, ih, (a.perform_keeps op).options, hstep, List.zip_cons_cons]
    by_cases ho : a.options.irGenOnly = true
    · simp only [ho, if_true]
    · simp only [ho, if_false, Bool.false_eq_true]
      cases hc : createdFor? sid (op, (a.perform op).1) with
      | none => rw [List.filterMap_cons_none hc, Option.none_or]
      | some id =>
        rw [List.filterMap_cons_some hc, List.getLast?_cons]
        cases ((ops.zip ((a.perform op).2.run ops).1).filterMap (createdFor? sid)).getLast? <;> rfl

/-- The last creation that succeeds decides, not the last one tried. -/
example : ((new .default).run [.newScript "a.rb" 1, .newStaticScope,
    .newMethod ⟨0⟩ "f" true 2 (some ⟨0⟩), .newMethod ⟨0⟩ "g" true 3 (some ⟨0⟩),
    .newMethod ⟨9⟩ "h" true 4 (some ⟨0⟩)]).2.scopeForStatic? ⟨0⟩ = some ⟨2⟩ := rfl

/-- The method that an operation answered with is in the arena from then on, and keeps the static
scope that it was created with. -/
theorem method_of_reply {k : Nat} {parent id : ScopeId} {name : String} {isInstance : Bool}
    {line : UInt32} {staticScope : Option StaticScopeId}
    (hop : ops[k]? = some (.newMethod parent name isInstance line staticScope))
    (hr : (a.run ops).1[k]? = some (.ok (.scope id))) :
    ∃ n m, (a.run ops).2.scopes[n]? = some (.method m) ∧ id = ⟨.ofNat n⟩ ∧ m.header.id = id ∧
      m.header.staticScope = staticScope := by
  induction ops generalizing a k with
  | nil => simp at hop
  | cons op ops ih =>
    cases k with
    | succ k => exact ih hop hr
    | zero =>
      cases hop
      have hreply : (a.perform (.newMethod parent name isInstance line staticScope)).1 =
          .ok (.scope id) := Option.some.inj hr
      have hgrow := (a.perform (.newMethod parent name isInstance line staticScope)).2.run_grows ops
      cases hat : a.attempt (.newMethod parent name isInstance line staticScope) with
      | error e =>
        rw [perform, hat] at hreply
        cases hreply
      | ok r =>
        obtain ⟨reply, a'⟩ := r
        simp only [perform, hat] at hreply hgrow
        cases hreply
        cases change_of_attempt hat with
        | extended ht => cases ht
        | @newMethod _ p _ _ _ _ hp hs =>
          have hlast : (a.withMethod p.header name isInstance line staticScope).scopes[
              a.scopes.length]? = some (.method
                (.new a.nextScopeId p.header name isInstance line staticScope a.options)) := by
            simp [withMethod]
          obtain ⟨s', hs', he⟩ := hgrow.scope _ _ hlast
          cases he with
          | @method _ m he =>
            refine ⟨a.scopes.length, m, ?_, rfl, ?_, ?_⟩
            · simpa only [run, perform, hat] using hs'
            · rw [he.frame.header]
              rfl
            · rw [he.frame.header]
              rfl

/-- A method that an operation answered with, looked up by its id as long as no id is given twice. -/
theorem mem_methods_of_reply {k : Nat} {parent id : ScopeId} {name : String} {isInstance : Bool}
    {line : UInt32} {staticScope : Option StaticScopeId}
    (hop : ops[k]? = some (.newMethod parent name isInstance line staticScope))
    (hr : (a.run ops).1[k]? = some (.ok (.scope id))) :
    ∃ m ∈ (a.run ops).2.methods, m.header.id = id ∧ m.header.staticScope = staticScope ∧
      ((a.run ops).2.scopes.length ≤ 2 ^ 32 → (a.run ops).2.method? id = .ok m) := by
  obtain ⟨n, m, hm, rfl, hid, hstatic⟩ := method_of_reply hop hr
  refine ⟨m, ?_, hid, hstatic, fun hsize => ?_⟩
  · exact List.mem_filterMap.2 ⟨_, List.mem_of_getElem? hm, rfl⟩
  · have hlt := (List.getElem?_eq_some_iff.1 hm).1
    have hn : (UInt32.ofNat n).toNat = n :=
      UInt32.toNat_ofNat_of_lt' (Nat.lt_of_lt_of_le hlt hsize)
    rw [method?_eq_ok_iff, scope?, hn, hm]

/-- What is linked after a run from an arena without links was created for the static scope. -/
theorem reply_of_scopeForStatic? {sid : StaticScopeId} {id : ScopeId}
    (hnone : a.scopeForStatic? sid = none) (h : (a.run ops).2.scopeForStatic? sid = some id) :
    ∃ (k : Nat) (parent : ScopeId) (name : String) (isInstance : Bool) (line : UInt32),
      ops[k]? = some (.newMethod parent name isInstance line (some sid)) ∧
        (a.run ops).1[k]? = some (.ok (.scope id)) := by
  rw [scopeForStatic?_run, hnone] at h
  split at h
  · cases h
  · rw [Option.or_none] at h
    obtain ⟨⟨op, reply⟩, hmem, hc⟩ := List.mem_filterMap.1 (List.mem_of_getLast? h)
    obtain ⟨k, hk⟩ := List.mem_iff_getElem?.1 hmem
    obtain ⟨hop, hreply⟩ := List.getElem?_zip_eq_some.1 hk
    unfold createdFor? at hc
    split at hc
    · rename_i parent name isInstance line staticScope id' heq
      cases heq
      split at hc
      · rename_i hsid
        cases hc
        exact ⟨k, parent, name, isInstance, line, hsid ▸ hop, hreply⟩
      · cases hc
    · cases hc

end Arena

end MethodIR
