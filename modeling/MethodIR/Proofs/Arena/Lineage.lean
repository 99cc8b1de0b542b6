import MethodIR.Proofs.Arena.Growth

/-!
Where scopes come from. Parents stand before their methods, so every chain of parents ends at a
script, and all scopes of a chain have the file that this script was created for.
-/
namespace MethodIR

/-- What a scope under the id `id` says about itself is true in the arena. -/
structure Scope.Fits (s : Scope) (a : Arena) (id : ScopeId) : Prop where
  header_id : s.header.id = id
  script : ∀ f, s = .script f → s.header.parent = none ∧ s.header.staticScope = none
  method : ∀ m, s = .method m → ∃ pid p, s.header.parent = some pid ∧ a.scope? pid = some p ∧
    pid.index < id.index ∧ s.header.file = p.header.file
  staticScope : ∀ sid, s.header.staticScope = some sid → ∃ ss, a.staticScope? sid = some ss
  file : ∃ name, a.fileName? s.header.file = .ok name

structure Arena.WellFormed (a : Arena) : Prop where
  scope : ∀ id s, a.scope? id = some s → s.Fits a id
  staticScope : ∀ sid ss, a.staticScope? sid = some ss → ss.id = sid

namespace Arena

variable {a a' : Arena} {op : Operation} {reply : Reply} {ops : List Operation} {id : ScopeId}
  {s s' : Scope}

theorem fileName?_eq_ok_iff {f : FileId} {name : String} :
    a.fileName? f = .ok name ↔ a.files.file? f = some name := by
  unfold fileName?
  split <;> simp_all

theorem staticScope?_of_lt {sid : StaticScopeId} (h : sid.index.toNat < a.staticScopes.length) :
    ∃ ss, a.staticScope? sid = some ss := ⟨_, List.getElem?_eq_getElem h⟩

theorem Extends.fileName? (h : a.Extends a') {f : FileId} {name : String}
    (hf : a.fileName? f = .ok name) : a'.fileName? f = .ok name :=
  fileName?_eq_ok_iff.2 (h.file f name (fileName?_eq_ok_iff.1 hf))

/-- A scope that fits still does when the arena grows. -/
theorem fits_of_grown (hs : s.Fits a id) (ha : a.Extends a') (he : s.Extends s') :
    s'.Fits a' id := by
  have hh := he.header_eq
  constructor
  · rw [hh, hs.header_id]
  · rintro f rfl
    rw [hh]
    cases he with
    | script he => exact hs.script _ rfl
  · rintro m rfl
    rw [hh]
    cases he with
    | @method m _ he =>
      obtain ⟨pid, p, hp, hpid, hlt, hfile⟩ := hs.method m rfl
      obtain ⟨p', hp', hep⟩ := ha.scope _ _ hpid
      exact ⟨pid, p', hp, hp', hlt, by rw [hep.header_eq, hfile]⟩
  · intro sid hsid
    rw [hh] at hsid
    obtain ⟨ss, hss⟩ := hs.staticScope sid hsid
    have hlt := (List.getElem?_eq_some_iff.1 hss).1
    exact staticScope?_of_lt (Nat.lt_of_lt_of_le hlt ha.staticScopes)
  · rw [hh]
    obtain ⟨name, hname⟩ := hs.file
    exact ⟨name, ha.fileName? hname⟩

/-- The scope that an operation creates fits at the end of the arena. -/
theorem fits_of_created (ha : a.WellFormed) (hc : a.Change op reply a') (h : a.Creates op s)
    (hid : id.index.toNat = a.scopes.length) (hf : a'.files.size < 2 ^ 32) : s.Fits a' id := by
  have hnext : a.nextScopeId = id := nextScopeId_eq hid
  cases h with
  | script file line =>
    cases hc with
    | newScript =>
      refine ⟨hnext, fun f _ => ⟨rfl, rfl⟩, by simp, ?_, ?_⟩
      · intro sid hsid
        cases hsid
      · exact ⟨file, fileName?_eq_ok_iff.2 (StringTable.file?_internFile hf)⟩
    | missing ht => cases ht
    | extended ht => cases ht
  | @method parent p name isInstance line staticScope hp hs =>
    have hfit := ha.scope parent p hp
    have hgrow := hc.grows
    refine ⟨hnext, by simp, ?_, ?_, ?_⟩
    · rintro m -
      obtain ⟨p', hp', hep⟩ := hgrow.scope _ _ hp
      have hlt := (List.getElem?_eq_some_iff.1 hp).1
      refine ⟨parent, p', congrArg some hfit.header_id, hp', ?_, ?_⟩
      · rw [UInt32.lt_iff_toNat_lt, hid]
        exact hlt
      · rw [hep.header_eq]
        rfl
    · intro sid hsid
      exact staticScope?_of_lt (Nat.lt_of_lt_of_le (hs sid hsid) hgrow.staticScopes)
    · obtain ⟨name, hname⟩ := hfit.file
      exact ⟨name, hgrow.fileName? hname⟩

theorem id_linkStatic {n : Nat} {ss : StaticScope} {staticScope : Option StaticScopeId}
    (h : (a.linkStatic id staticScope)[n]? = some ss) :
    ∃ ss', a.staticScopes[n]? = some ss' ∧ ss.id = ss'.id := by
  cases staticScope with
  | none => exact ⟨ss, h, rfl⟩
  | some sid =>
    rw [linkStatic, List.getElem?_modify, Option.map_eq_map, Option.map_eq_some_iff] at h
    obtain ⟨ss', hss', rfl⟩ := h
    refine ⟨ss', hss', ?_⟩
    split
    · unfold StaticScope.link
      split <;> rfl
    · rfl

theorem Change.staticScope_id (h : a.Change op reply a')
    (ha : ∀ sid ss, a.staticScope? sid = some ss → ss.id = sid) (sid : StaticScopeId)
    (ss : StaticScope) (hss : a'.staticScope? sid = some ss) : ss.id = sid := by
  cases h with
  | newScript file line => exact ha sid ss hss
  | newStaticScope =>
    rcases getElem?_concat_eq_some_iff.1 hss with hold | ⟨hn, rfl⟩
    · exact ha sid ss hold
    · change StaticScopeId.mk (.ofNat a.staticScopes.length) = sid
      rw [← hn, UInt32.ofNat_toNat]
  | newMethod hp hs =>
    obtain ⟨ss', hss', hid⟩ := id_linkStatic hss
    rw [hid]
    exact ha sid ss' hss'
  | missing ht hs => exact ha sid ss hss
  | extended ht hs he => exact ha sid ss hss

theorem wellFormed_new (o : Options) : (new o).WellFormed where
  scope id s hs := by simp [new, scope?] at hs
  staticScope sid ss hss := by simp [new, staticScope?] at hss

theorem wellFormed_perform (ha : a.WellFormed) (hf : (a.perform op).2.files.size < 2 ^ 32) :
    (a.perform op).2.WellFormed := by
  cases hr : a.attempt op with
  | error e => simpa [perform, hr] using ha
  | ok r =>
    have hp : (a.perform op).2 = r.2 := by simp [perform, hr]
    rw [hp] at hf ⊢
    have hc : a.Change op r.1 r.2 := change_of_attempt hr
    refine ⟨fun id s hs => ?_, hc.staticScope_id ha.staticScope⟩
    rcases hc.scope_cases hs with ⟨s', hs', he⟩ | ⟨hid, -, hcreates⟩
    · exact fits_of_grown (ha.scope id s' hs') hc.grows he
    · exact fits_of_created ha hc hcreates hid hf

theorem wellFormed_run (ha : a.WellFormed) (hf : (a.run ops).2.files.size < 2 ^ 32) :
    (a.run ops).2.WellFormed := by
  induction ops generalizing a with
  | nil => exact ha
  | cons op ops ih =>
    have hle := ((a.perform op).2.run_grows ops).files
    exact ih (wellFormed_perform ha (Nat.lt_of_le_of_lt hle hf)) hf

/-- The `n`-th parent of a scope. -/
def ancestor? (a : Arena) : Nat → ScopeId → Option ScopeId
  | 0, id => some id
  | n + 1, id => do a.ancestor? n (← (← a.scope? id).header.parent)

/-- A chain of parents ends at a script after at most as many steps as there are scopes before it,
and the file stays the same all along. -/
theorem reaches_script (ha : a.WellFormed) (hs : a.scope? id = some s) :
    ∃ n root f, n ≤ id.index.toNat ∧ a.ancestor? n id = some root ∧
      a.scope? root = some (.script f) ∧ s.header.file = f.header.file := by
  induction hn : id.index.toNat using Nat.strongRecOn generalizing id s with
  | ind k ih =>
    cases s with
    | script f => exact ⟨0, id, f, Nat.zero_le _, rfl, hs, rfl⟩
    | method m =>
      obtain ⟨pid, p, hp, hpid, hlt, hfile⟩ := (ha.scope id _ hs).method m rfl
      rw [UInt32.lt_iff_toNat_lt, hn] at hlt
      obtain ⟨n, root, f, hle, hroot, hscript, hf⟩ := ih _ hlt hpid rfl
      refine ⟨n + 1, root, f, by omega, ?_, hscript, hfile.trans hf⟩
      simp only [ancestor?, hs, Option.bind_eq_bind, Option.bind_some, hp, hroot]

/-- A script keeps the name that it was created with. -/
theorem script_of_reply {k : Nat} {file : String} {line : UInt32} {root : ScopeId}
    (hsize : (a.run ops).2.scopes.length < 2 ^ 32) (hf : (a.run ops).2.files.size < 2 ^ 32)
    (hop : ops[k]? = some (.newScript file line))
    (hr : (a.run ops).1[k]? = some (.ok (.scope root))) :
    ∃ f, (a.run ops).2.scope? root = some (.script f) ∧
      (a.run ops).2.fileName? f.header.file = .ok file := by
  induction ops generalizing a k with
  | nil => simp at hop
  | cons op ops ih =>
    cases k with
    | succ k => exact ih hsize hf hop hr
    | zero =>
      cases hop
      cases hr
      have hgrow := (a.newScript file line).2.run_grows ops
      have hlen : a.scopes.length < (a.newScript file line).2.scopes.length := by
        simp [newScript]
      have hid : a.nextScopeId.index.toNat = a.scopes.length :=
        UInt32.toNat_ofNat_of_lt' (Nat.lt_trans (Nat.lt_of_lt_of_le hlen hgrow.scopes) hsize)
      have hname := StringTable.file?_internFile (Nat.lt_of_le_of_lt hgrow.files hf)
      have hlast : (a.newScript file line).2.scopes[a.scopes.length]? =
          some (.script (.ofScript a.nextScopeId (a.files.internFile file).1 line)) := by
        simp [newScript]
      obtain ⟨s', hs', he⟩ := hgrow.scope _ _ hlast
      cases he with
      | @script _ f he =>
        refine ⟨f, ?_, fileName?_eq_ok_iff.2 ?_⟩
        · change (run _ ops).2.scopes[a.nextScopeId.index.toNat]? = _
          rw [hid]
          exact hs'
        · rw [he.header]
          exact hgrow.file _ _ hname

/-- A script that was not there before was created by an operation that answered with its id. -/
theorem origin_of_script {root : ScopeId} {f : Frame}
    (h : (a.run ops).2.scope? root = some (.script f)) : (∃ s, a.scope? root = some s) ∨
      ∃ (k : Nat) (file : String) (line : UInt32), ops[k]? = some (.newScript file line) ∧
        (a.run ops).1[k]? = some (.ok (.scope root)) := by
  induction ops generalizing a with
  | nil => exact .inl ⟨_, h⟩
  | cons op ops ih =>
    rcases ih h with ⟨s, hs⟩ | ⟨k, file, line, hop, hr⟩
    · obtain ⟨s', hs', he⟩ := ((a.perform op).2.run_grows ops).scope _ _ hs
      obtain rfl : s' = .script f := Option.some.inj (hs'.symm.trans h)
      cases hr : a.attempt op with
      | error e =>
        simp only [hr] at hs
        exact .inl ⟨s, hs⟩
      | ok r =>
        simp only [hr] at hs
        have hc : a.Change op r.1 r.2 := change_of_attempt hr
        rcases hc.scope_cases hs with ⟨s', hs', -⟩ | ⟨hid, hreply, hcreates⟩
        · exact .inl ⟨s', hs'⟩
        · cases he
          cases hcreates with
          | script file line =>
            have hroot : a.nextScopeId = root := nextScopeId_eq hid
            refine .inr ⟨0, file, line, rfl, ?_⟩
            simp only [run, perform, hr, hreply, hroot]
            rfl
    · exact .inr ⟨k + 1, file, line, hop, hr⟩

theorem mem_methods_iff (ha : a.WellFormed) (hsize : a.scopes.length < 2 ^ 32) {m : Method} :
    a.method? id = .ok m ↔ m ∈ a.methods ∧ m.header.id = id := by
  have hmem : m ∈ a.methods ↔ .method m ∈ a.scopes := by
    simp only [methods, List.mem_filterMap]
    constructor
    · rintro ⟨s, hs, hm⟩
      cases s with
      | script f => cases hm
      | method m' => cases hm; exact hs
    · exact fun h => ⟨_, h, rfl⟩
  rw [method?_eq_ok_iff, hmem]
  constructor
  · intro h
    exact ⟨List.mem_of_getElem? h, (ha.scope id _ h).header_id⟩
  · rintro ⟨hm, rfl⟩
    obtain ⟨n, hn⟩ := List.mem_iff_getElem?.1 hm
    have hlt := Nat.lt_trans (List.getElem?_eq_some_iff.1 hn).1 hsize
    have hs : a.scope? ⟨.ofNat n⟩ = some (.method m) := by
      rw [scope?, UInt32.toNat_ofNat_of_lt' hlt, hn]
    have hid : m.header.id = ⟨.ofNat n⟩ := (ha.scope _ _ hs).header_id
    rw [hid, hs]

theorem pairwise_methods (ha : a.WellFormed) (hsize : a.scopes.length < 2 ^ 32) :
    (a.methods.map fun m => m.header.id.index).Pairwise (· < ·) := by
  have hids : a.scopes.Pairwise fun s s' => s.header.id.index < s'.header.id.index := by
    rw [List.pairwise_iff_getElem]
    intro i j hi hj hij
    have hid : ∀ (n : Nat) (hn : n < a.scopes.length),
        a.scopes[n].header.id.index.toNat = n := by
      intro n hn
      have htoNat : (UInt32.ofNat n).toNat = n := UInt32.toNat_ofNat_of_lt' (Nat.lt_trans hn hsize)
      have hs : a.scope? ⟨.ofNat n⟩ = some a.scopes[n] := by
        rw [scope?, htoNat, List.getElem?_eq_getElem hn]
      rw [(ha.scope _ _ hs).header_id, htoNat]
    rw [UInt32.lt_iff_toNat_lt, hid i hi, hid j hj]
    exact hij
  rw [List.pairwise_map, methods, List.pairwise_filterMap]
  refine hids.imp ?_
  rintro s s' hlt m hm m' hm'
  cases s <;> cases hm
  cases s' <;> cases hm'
  exact hlt

/-- The files of a well-formed arena resolve, so a summary fails just where there is no method. -/
theorem summary?_cases (ha : a.WellFormed) (id : ScopeId) :
    ((∃ x, a.summary? id = .ok x) ↔ ∃ m, a.method? id = .ok m) ∧
    (a.summary? id = .error (.notAMethod id) ↔ ∃ f, a.scope? id = some (.script f)) ∧
    (a.summary? id = .error (.unknownScope id) ↔ a.scopes.length ≤ id.index.toNat) ∧
    ∀ file, a.summary? id ≠ .error (.unknownFile file) := by
  have hnone : a.scope? id = none ↔ a.scopes.length ≤ id.index.toNat := List.getElem?_eq_none_iff
  rw [← hnone]
  cases hs : a.scope? id with
  | none =>
    have hm : a.method? id = .error (.unknownScope id) := by rw [method?, hs]
    simp [summary?, hm, bind, Except.bind]
  | some s =>
    cases s with
    | script f =>
      have hm : a.method? id = .error (.notAMethod id) := by rw [method?, hs]
      simp [summary?, hm, bind, Except.bind]
    | method m =>
      have hm : a.method? id = .ok m := by rw [method?, hs]
      obtain ⟨name, hname⟩ := (ha.scope id _ hs).file
      have hname' : a.fileName? m.header.file = .ok name := hname
      simp [summary?, hm, hname', bind, Except.bind, pure, Except.pure]

/-- Whatever operations are performed on a new arena, in whatever order and failing or not: scopes
know their ids and their parents, every chain of parents ends at a script, whose file its methods
have, and `methods` and `summary?` are about just the methods that there are. A scope changes by its
own operations only; none of them puts another scope in its place. -/
theorem run_lineage (o : Options) (ops : List Operation)
    (hsize : ((new o).run ops).2.scopes.length < 2 ^ 32)
    (hfiles : ((new o).run ops).2.files.size < 2 ^ 32) :
    let a := ((new o).run ops).2
    a.WellFormed ∧
    (∀ id s, a.scope? id = some s → ∃ n root f, a.ancestor? n id = some root ∧
      a.scope? root = some (.script f) ∧ s.header.file = f.header.file ∧
      (∃ (k : Nat) (file : String) (line : UInt32), ops[k]? = some (.newScript file line) ∧
        ((new o).run ops).1[k]? = some (.ok (.scope root))) ∧
      ∀ (k : Nat) (file : String) (line : UInt32), ops[k]? = some (.newScript file line) →
        ((new o).run ops).1[k]? = some (.ok (.scope root)) →
        a.fileName? s.header.file = .ok file) ∧
    (a.methods.map fun m => m.header.id.index).Pairwise (· < ·) ∧
    (∀ id m, a.method? id = .ok m ↔ m ∈ a.methods ∧ m.header.id = id) ∧
    ∀ id, ((∃ x, a.summary? id = .ok x) ↔ ∃ m, a.method? id = .ok m) ∧
      (a.summary? id = .error (.notAMethod id) ↔ ∃ f, a.scope? id = some (.script f)) ∧
      (a.summary? id = .error (.unknownScope id) ↔ a.scopes.length ≤ id.index.toNat) ∧
      ∀ file, a.summary? id ≠ .error (.unknownFile file) := by
  intro a
  have ha : a.WellFormed := wellFormed_run (wellFormed_new o) hfiles
  refine ⟨ha, fun id s hs => ?_, pairwise_methods ha hsize, fun id m => mem_methods_iff ha hsize,
    summary?_cases ha⟩
  obtain ⟨n, root, f, -, hroot, hscript, hfile⟩ := reaches_script ha hs
  refine ⟨n, root, f, hroot, hscript, hfile, ?_, ?_⟩
  · rcases origin_of_script hscript with ⟨s, hs⟩ | horigin
    · simp [new, scope?] at hs
    · exact horigin
  · intro k file line hop hr
    obtain ⟨f', hf', hname⟩ := script_of_reply hsize hfiles hop hr
    cases hscript.symm.trans hf'
    rw [hfile]
    exact hname

/-- Two scripts, methods three deep, and operations that fail in between. -/
def nestedOperations : List Operation :=
  [.newScript "a.rb" 1, .newStaticScope, .newMethod ⟨0⟩ "outer" true 2 (some ⟨0⟩),
    .newMethod ⟨9⟩ "lost" true 2 none, .newMethod ⟨1⟩ "inner" false 3 none, .newScript "b.rb" 1,
    .newMethod ⟨3⟩ "other" true 2 (some ⟨1⟩), .newMethod ⟨2⟩ "inmost" true 4 (some ⟨0⟩),
    .append ⟨3⟩ (.line 1), .request ⟨0⟩ "x" 0, .resolve ⟨4⟩ "x" 1, .block ⟨4⟩]

theorem run_lineage_nested :
    let a := ((new .default).run nestedOperations).2
    a.scopes.length = 5 ∧ a.files.size = 2 ∧ a.WellFormed ∧
      (a.methods.map fun m => m.header.id.index) = [1, 2, 4] ∧
      (a.methods.map fun m => m.header.id.index).Pairwise (· < ·) ∧
      ∃ n root f, a.ancestor? n ⟨4⟩ = some root ∧ a.scope? root = some (.script f) := by
  intro a
  have hsize : a.scopes.length = 5 := rfl
  have hfiles : a.files.size = 2 := rfl
  obtain ⟨ha, hlineage, hpairs, -⟩ := run_lineage .default nestedOperations
    (by rw [hsize]; decide) (by rw [hfiles]; decide)
  have hscope : ∃ s, a.scope? ⟨4⟩ = some s := ⟨_, rfl⟩
  obtain ⟨s, hs⟩ := hscope
  obtain ⟨n, root, f, hroot, hscript, -⟩ := hlineage ⟨4⟩ s hs
  exact ⟨hsize, hfiles, ha, rfl, hpairs, n, root, f, hroot, hscript⟩

end Arena

end MethodIR
