import MethodIR.Proofs.Arena.Lineage

/-!
Operations on different scopes. What an operation answers and what it makes of its scope follows from
that scope alone, and it touches nothing else. In a run each scope goes its own way, so the order
between operations on different scopes never shows.
-/
namespace MethodIR

/-- Whether an operation is on the scope `id`. -/
def Operation.isOn (id : ScopeId) (op : Operation) : Bool := op.target? == some id

theorem Operation.isOn_iff {id : ScopeId} {op : Operation} :
    op.isOn id = true ↔ op.target? = some id := beq_iff_eq

namespace Arena

/-- The arenas differ at most in the scopes that are listed as changed. -/
structure SameBut (changed : ScopeId → Prop) (a a' : Arena) : Prop where
  options : a'.options = a.options
  files : a'.files = a.files
  staticScopes : a'.staticScopes = a.staticScopes
  length : a'.scopes.length = a.scopes.length
  scope : ∀ n, (∀ id, changed id → id.index.toNat ≠ n) → a'.scopes[n]? = a.scopes[n]?

/-- The results of one operation on the scope `id` of two arenas, where the scope decides. -/
inductive Alike (a a' : Arena) (id : ScopeId) :
    Except Error (Reply × Arena) → Except Error (Reply × Arena) → Prop where
  | refused (e : Error) : Alike a a' id (.error e) (.error e)
  | missing : Alike a a' id (.ok (.noScope, a)) (.ok (.noScope, a'))
  | changed (reply : Reply) (s : Scope) :
    Alike a a' id (.ok (reply, a.setScope id s)) (.ok (reply, a'.setScope id s))

/-- The operations on a scope in a run, each with its answer. -/
def answersOn (a : Arena) (id : ScopeId) (ops : List Operation) :
    List (Operation × Except Error Reply) :=
  (ops.zip (a.run ops).1).filter fun e => e.1.isOn id

variable {a a' a'' : Arena} {id : ScopeId} {op : Operation} {ops ops' : List Operation}
  {changed changed' : ScopeId → Prop}

theorem sameBut_refl (changed : ScopeId → Prop) (a : Arena) : a.SameBut changed a :=
  ⟨rfl, rfl, rfl, rfl, fun _ _ => rfl⟩

theorem SameBut.mono (h : SameBut changed a a') (hc : ∀ id, changed id → changed' id) :
    SameBut changed' a a' :=
  { h with scope := fun n hn => h.scope n fun id hid => hn id (hc id hid) }

theorem SameBut.trans (h : SameBut changed a a') (h' : SameBut changed a' a'') :
    SameBut changed a a'' where
  options := h'.options.trans h.options
  files := h'.files.trans h.files
  staticScopes := h'.staticScopes.trans h.staticScopes
  length := h'.length.trans h.length
  scope n hn := (h'.scope n hn).trans (h.scope n hn)

theorem SameBut.scope? (h : SameBut changed a a') (hid : ¬ changed id) :
    a'.scope? id = a.scope? id := by
  refine h.scope _ fun id' hid' heq => hid ?_
  have hsame : id' = id := congrArg ScopeId.mk (UInt32.toNat_inj.1 heq)
  exact hsame ▸ hid'

theorem sameBut_setScope (a : Arena) (id : ScopeId) (s : Scope) :
    a.SameBut (· = id) (a.setScope id s) where
  options := rfl
  files := rfl
  staticScopes := rfl
  length := List.length_set
  scope _ hn := List.getElem?_set_ne (hn id rfl)

theorem scope?_setScope_eq_map (a : Arena) (id : ScopeId) (s : Scope) :
    (a.setScope id s).scope? id = (a.scope? id).map fun _ => s :=
  List.getElem?_set_self'

theorem onMethod_alike (h : a.scope? id = a'.scope? id)
    (step : Method → Except Error (Reply × Method)) :
    a.Alike a' id (a.onMethod id step) (a'.onMethod id step) := by
  have hm : a.method? id = a'.method? id := by rw [method?, method?, h]
  simp only [onMethod, hm]
  cases a'.method? id with
  | error e => exact .refused e
  | ok m =>
    simp only [bind, Except.bind]
    cases step m with
    | error e => exact .refused e
    | ok r => exact .changed r.1 (.method r.2)

theorem onScope_alike (h : a.scope? id = a'.scope? id)
    (step : Scope → Except Error (Reply × Scope)) :
    a.Alike a' id (a.onScope id step) (a'.onScope id step) := by
  simp only [onScope, h]
  cases a'.scope? id with
  | none => exact .missing
  | some s =>
    simp only [bind, Except.bind]
    cases step s with
    | error e => exact .refused e
    | ok r => exact .changed r.1 r.2

theorem attempt_alike (ht : op.target? = some id) (h : a.scope? id = a'.scope? id) :
    a.Alike a' id (a.attempt op) (a'.attempt op) := by
  cases op with
  | newScript | newStaticScope | newMethod => cases ht
  | append | declare | resolve | block =>
    cases ht
    exact onMethod_alike h _
  | add | find | request =>
    cases ht
    exact onScope_alike h _

/-- The scope that an operation is on decides the answer, and what becomes of the scope. -/
theorem perform_congr (ht : op.target? = some id) (h : a.scope? id = a'.scope? id) :
    (a.perform op).1 = (a'.perform op).1 ∧
      (a.perform op).2.scope? id = (a'.perform op).2.scope? id := by
  have hr := attempt_alike ht h
  unfold perform
  generalize a.attempt op = r at hr ⊢
  generalize a'.attempt op = r' at hr ⊢
  cases hr with
  | refused e => exact ⟨rfl, h⟩
  | missing => exact ⟨rfl, h⟩
  | changed reply s =>
    refine ⟨rfl, ?_⟩
    simp only [scope?_setScope_eq_map, h]

/-- An operation on a scope leaves all the others as they are, and all that is no scope. -/
theorem perform_sameBut (ht : op.target? = some id) (a : Arena) :
    a.SameBut (· = id) (a.perform op).2 := by
  have hr : a.Alike a id (a.attempt op) (a.attempt op) := attempt_alike ht rfl
  unfold perform
  generalize a.attempt op = r at hr ⊢
  cases hr with
  | refused e => exact sameBut_refl _ a
  | missing => exact sameBut_refl _ a
  | changed reply s => exact sameBut_setScope a id s

theorem run_cons (a : Arena) (op : Operation) (ops : List Operation) : a.run (op :: ops) =
    ((a.perform op).1 :: ((a.perform op).2.run ops).1, ((a.perform op).2.run ops).2) := rfl

theorem answersOn_cons (a : Arena) (id : ScopeId) (op : Operation) (ops : List Operation) :
    a.answersOn id (op :: ops) = if op.isOn id then
      (op, (a.perform op).1) :: (a.perform op).2.answersOn id ops
    else (a.perform op).2.answersOn id ops := by
  rw [answersOn, run_cons, List.zip_cons_cons, List.filter_cons]
  rfl

theorem run_sameBut (hops : ∀ op ∈ ops, op.target?.isSome) (a : Arena) :
    a.SameBut (fun id => ∃ op ∈ ops, op.target? = some id) (a.run ops).2 := by
  induction ops generalizing a with
  | nil => exact sameBut_refl _ a
  | cons op ops ih =>
    obtain ⟨hop, hops⟩ := List.forall_mem_cons.1 hops
    obtain ⟨id, ht⟩ := Option.isSome_iff_exists.1 hop
    rw [run_cons]
    refine ((perform_sameBut ht a).mono ?_).trans ((ih hops (a.perform op).2).mono ?_)
    · rintro _ rfl
      exact ⟨op, List.mem_cons_self, ht⟩
    · rintro id' ⟨op', hmem, ht'⟩
      exact ⟨op', List.mem_cons_of_mem op hmem, ht'⟩

/-- In a run a scope goes the way on which its own operations lead it, with the same answers. -/
theorem run_eq_alone (id : ScopeId) (hops : ∀ op ∈ ops, op.target?.isSome)
    (h : a.scope? id = a'.scope? id) :
    (a.run ops).2.scope? id = (a'.run (ops.filter (·.isOn id))).2.scope? id ∧
      a.answersOn id ops =
        (ops.filter (·.isOn id)).zip (a'.run (ops.filter (·.isOn id))).1 := by
  induction ops generalizing a a' with
  | nil => exact ⟨h, rfl⟩
  | cons op ops ih =>
    obtain ⟨hop, hops⟩ := List.forall_mem_cons.1 hops
    obtain ⟨id', ht⟩ := Option.isSome_iff_exists.1 hop
    by_cases hon : op.isOn id = true
    · obtain ⟨hreply, hscope⟩ := perform_congr (Operation.isOn_iff.1 hon) h
      obtain ⟨hrest, hanswers⟩ := ih hops hscope
      rw [answersOn_cons, if_pos hon, List.filter_cons_of_pos hon, run_cons, run_cons,
        List.zip_cons_cons, hreply, hanswers]
      exact ⟨hrest, rfl⟩
    · have hne : ¬ id = id' := by
        rintro rfl
        exact hon (Operation.isOn_iff.2 ht)
      have hscope := ((perform_sameBut ht a).scope? hne).trans h
      obtain ⟨hrest, hanswers⟩ := ih hops hscope
      rw [answersOn_cons, if_neg hon, List.filter_cons_of_neg hon, run_cons]
      exact ⟨hrest, hanswers⟩

/-- Runs that come to the same for each single scope come to the same arena. -/
theorem run_eq_of_filter_eq (hops : ∀ op ∈ ops, op.target?.isSome)
    (hops' : ∀ op ∈ ops', op.target?.isSome)
    (h : ∀ id, ops'.filter (·.isOn id) = ops.filter (·.isOn id)) (a : Arena) :
    (a.run ops').2 = (a.run ops).2 := by
  have hb := run_sameBut hops a
  have hb' := run_sameBut hops' a
  have hscope : ∀ id, (a.run ops').2.scope? id = (a.run ops).2.scope? id := by
    intro id
    rw [(run_eq_alone id hops' rfl).1, (run_eq_alone id hops rfl).1, h id]
  have htouched : ∀ id, (∃ op ∈ ops', op.target? = some id) → ∃ op ∈ ops, op.target? = some id := by
    rintro id ⟨op, hmem, ht⟩
    have hon : op ∈ ops.filter (·.isOn id) :=
      h id ▸ List.mem_filter.2 ⟨hmem, Operation.isOn_iff.2 ht⟩
    exact ⟨op, List.mem_of_mem_filter hon, ht⟩
  have hscopes : (a.run ops').2.scopes = (a.run ops).2.scopes := by
    refine List.ext_getElem? fun n => ?_
    by_cases hn : ∃ id, (∃ op ∈ ops, op.target? = some id) ∧ id.index.toNat = n
    · obtain ⟨id, -, rfl⟩ := hn
      exact hscope id
    · have hold : ∀ id, (∃ op ∈ ops, op.target? = some id) → id.index.toNat ≠ n :=
        fun id hid heq => hn ⟨id, hid, heq⟩
      rw [hb.scope n hold, hb'.scope n fun id hid => hold id (htouched id hid)]
  have hoptions := hb'.options.trans hb.options.symm
  have hfiles := hb'.files.trans hb.files.symm
  have hstatic := hb'.staticScopes.trans hb.staticScopes.symm
  generalize (a.run ops').2 = r' at hoptions hfiles hscopes hstatic ⊢
  generalize (a.run ops).2 = r at hoptions hfiles hscopes hstatic ⊢
  cases r
  cases r'
  simp only [mk.injEq]
  exact ⟨hoptions, hfiles, hscopes, hstatic⟩

theorem summary?_congr (h : a.scope? id = a'.scope? id) (hf : a.files = a'.files) :
    a.summary? id = a'.summary? id := by
  simp only [summary?, method?, fileName?, h, hf]

/-- The operations of one scope after another, filtered for one of them. -/
theorem filter_flatMap_isOn (ops : List Operation) {ids : List ScopeId} (hids : ids.Nodup) :
    (ids.flatMap fun id' => ops.filter (·.isOn id')).filter (·.isOn id) =
      if id ∈ ids then ops.filter (·.isOn id) else [] := by
  induction ids with
  | nil => rfl
  | cons id' ids ih =>
    obtain ⟨hnot, hids⟩ := List.nodup_cons.1 hids
    rw [List.flatMap_cons, List.filter_append, ih hids, List.filter_filter]
    by_cases heq : id = id'
    · subst heq
      simp [hnot]
    · have hnone : ops.filter (fun op => op.isOn id && op.isOn id') = [] := by
        refine List.filter_eq_nil_iff.2 fun op _ hboth => heq ?_
        obtain ⟨hon, hon'⟩ := Bool.and_eq_true_iff.1 hboth
        have ht := (Operation.isOn_iff.1 hon).symm.trans (Operation.isOn_iff.1 hon')
        exact Option.some.inj ht
      simp [hnone, heq]

/-- Operations on scopes, failing ones among them, give the same arena and the same answers in every
order that keeps the order on each scope. Each of them touches its own scope alone, not the parent
of that scope nor its children. So a scope comes out as if only its own operations had been performed,
and as if all operations had been performed one scope after another. -/
theorem run_reordering (a : Arena) {ops : List Operation}
    (hops : ∀ op ∈ ops, op.target?.isSome) :
    (∀ ops' : List Operation, ops'.Perm ops →
      (∀ id, ops'.filter (·.isOn id) = ops.filter (·.isOn id)) →
      (a.run ops').2 = (a.run ops).2 ∧ ∀ id, a.answersOn id ops' = a.answersOn id ops) ∧
    (∀ op id, op.target? = some id → a.SameBut (· = id) (a.perform op).2 ∧
      ∀ id', id' ≠ id → (a.perform op).2.scope? id' = a.scope? id') ∧
    (∀ id, let own := ops.filter (·.isOn id)
      (a.run ops).2.scope? id = (a.run own).2.scope? id ∧
      (a.run ops).2.summary? id = (a.run own).2.summary? id ∧
      a.answersOn id ops = own.zip (a.run own).1) ∧
    ∀ ids : List ScopeId, ids.Nodup → (∀ op ∈ ops, ∃ id ∈ ids, op.target? = some id) →
      let r := a.run (ids.flatMap fun id => ops.filter (·.isOn id))
      r.2 = (a.run ops).2 ∧ ∀ id, r.2.summary? id = (a.run ops).2.summary? id := by
  refine ⟨fun ops' hperm horder => ?_, fun op id ht => ?_, fun id => ?_, fun ids hids hall => ?_⟩
  · have hops' : ∀ op ∈ ops', op.target?.isSome := fun op hop => hops op (hperm.mem_iff.1 hop)
    refine ⟨run_eq_of_filter_eq hops hops' horder a, fun id => ?_⟩
    rw [(run_eq_alone id hops' rfl).2, (run_eq_alone id hops rfl).2, horder id]
  · have hsame := perform_sameBut ht a
    exact ⟨hsame, fun id' hne => hsame.scope? hne⟩
  · have hown : ∀ op ∈ ops.filter (·.isOn id), op.target?.isSome :=
      fun op hop => hops op (List.mem_of_mem_filter hop)
    obtain ⟨hscope, hanswers⟩ := run_eq_alone (a := a) id hops rfl
    refine ⟨hscope, summary?_congr hscope ?_, hanswers⟩
    exact (run_sameBut hops a).files.trans (run_sameBut hown a).files.symm
  · have hsplit : ∀ op ∈ ids.flatMap fun id => ops.filter (·.isOn id), op.target?.isSome := by
      intro op hop
      obtain ⟨id, -, hop⟩ := List.mem_flatMap.1 hop
      exact hops op (List.mem_of_mem_filter hop)
    have hfilter : ∀ id, (ids.flatMap fun id' => ops.filter (·.isOn id')).filter (·.isOn id) =
        ops.filter (·.isOn id) := by
      intro id
      rw [filter_flatMap_isOn ops hids]
      split
      · rfl
      · rename_i hnot
        refine (List.filter_eq_nil_iff.2 fun op hop hon => hnot ?_).symm
        obtain ⟨id', hid', ht⟩ := hall op hop
        rwa [Option.some.inj ((Operation.isOn_iff.1 hon).symm.trans ht)]
    have heq := run_eq_of_filter_eq hops hsplit hfilter a
    exact ⟨heq, fun id => by rw [heq]⟩

/-- A script, a method below it and a method below that, which bind the same name. The script is
taken for a method, and a name is asked for at another depth. -/
theorem run_reordering_nested :
    let a := ((new .default).run [.newScript "a.rb" 1, .newMethod ⟨0⟩ "outer" true 2 none,
      .newMethod ⟨1⟩ "inner" true 3 none]).2
    let early : List Operation := [.request ⟨1⟩ "x" 0, .append ⟨0⟩ (.line 1)]
    let late : List Operation := [.request ⟨2⟩ "y" 0, .resolve ⟨2⟩ "x" 1, .request ⟨2⟩ "x" 0]
    (a.run (early ++ late)).2 = (a.run (late ++ early)).2 ∧
      (a.run (early ++ late)).2.summary? ⟨2⟩ = (a.run late).2.summary? ⟨2⟩ ∧
      (a.answersOn ⟨2⟩ (early ++ late)).map (fun e => e.2.isOk) = [true, false, true] ∧
      a.answersOn ⟨2⟩ (early ++ late) = a.answersOn ⟨2⟩ (late ++ early) := by
  intro a early late
  have hops : ∀ op ∈ late ++ early, op.target?.isSome := by
    simp [early, late, Operation.target?]
  have horder : ∀ id, (early ++ late).filter (·.isOn id) = (late ++ early).filter (·.isOn id) := by
    intro id
    by_cases hid : id = ⟨2⟩
    · subst hid
      rfl
    · have hlate : late.filter (·.isOn id) = [] := by
        simp [late, Operation.isOn, Operation.target?, Ne.symm hid]
      rw [List.filter_append, List.filter_append, hlate, List.nil_append, List.append_nil]
  obtain ⟨hreorder, -, halone, -⟩ := run_reordering a hops
  obtain ⟨harena, hanswers⟩ := hreorder (early ++ late) List.perm_append_comm horder
  refine ⟨harena, ?_, rfl, hanswers ⟨2⟩⟩
  rw [harena]
  exact (halone ⟨2⟩).2.1

end Arena

end MethodIR
