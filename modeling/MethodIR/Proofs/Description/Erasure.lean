import MethodIR.Proofs.Description.Links
import MethodIR.Report.Basic

/-!
Options erased. An arena made bare has nothing traced and nothing linked, whatever its options were.
What is done to an arena is done to the bare one alike, so builds under different options have the
same bare arena, or fail for the same cause.
-/
namespace MethodIR

/-- The method without its trace flag. -/
def Method.untraced (m : Method) : Method := { m with traced := false }

def Scope.untraced : Scope → Scope
  | .script frame => .script frame
  | .method m => .method m.untraced

/-- The static scope without its link. -/
def StaticScope.unlinked (s : StaticScope) : StaticScope := { s with scope := none }

/-- The options under which no method is traced and no static scope is linked. -/
def Options.bare : Options := ⟨true, false⟩

/-- All of an arena but its options, the trace flags of its methods and the links of its static
scopes. -/
def Arena.bare (a : Arena) : Arena where
  options := .bare
  files := a.files
  scopes := a.scopes.map Scope.untraced
  staticScopes := a.staticScopes.map StaticScope.unlinked

theorem Method.fill_untraced (m : Method) (d : Description.Method) :
    (m.untraced.fill d).mapError Failure.cause =
      ((m.fill d).mapError Failure.cause).map untraced := by
  rw [fill_eq_record, fill_eq_record]
  simp only [map_bind_eq]
  rfl

@[simp] theorem Scope.header_untraced (s : Scope) : s.untraced.header = s.header := by
  cases s <;> rfl

theorem StaticScope.unlinked_link (s : StaticScope) (o : Options) (id : ScopeId) :
    (s.link o id).unlinked = s.unlinked := by
  rw [s.link_eq]
  rfl

theorem StaticScope.link_bare (s : StaticScope) (id : ScopeId) : s.link .bare id = s := rfl

namespace Arena

variable {a : Arena} {id script : ScopeId} {s : Scope}

theorem scope?_bare (a : Arena) (id : ScopeId) :
    a.bare.scope? id = (a.scope? id).map Scope.untraced := List.getElem?_map

@[simp] theorem nextScopeId_bare (a : Arena) : a.bare.nextScopeId = a.nextScopeId := by
  simp [nextScopeId, bare]

theorem method?_bare (a : Arena) (id : ScopeId) :
    a.bare.method? id = (a.method? id).map Method.untraced := by
  simp only [method?, scope?_bare]
  rcases a.scope? id with _ | _ | m <;> rfl

theorem summary?_bare (a : Arena) (id : ScopeId) : a.bare.summary? id = a.summary? id := by
  simp only [summary?, method?_bare]
  cases a.method? id <;> rfl

theorem setScope_bare (a : Arena) (id : ScopeId) (s : Scope) :
    (a.setScope id s).bare = a.bare.setScope id s.untraced := by
  simp only [setScope, bare, List.map_set]

theorem newStaticScope_bare (a : Arena) :
    a.bare.newStaticScope = (a.newStaticScope.1, a.newStaticScope.2.bare) := by
  simp [newStaticScope, bare, StaticScope.unlinked, StaticScope.new]

/-- A link to a new scope is all that it changes, whether or not the options ask for it. -/
theorem linkStatic_bare (a : Arena) (id : ScopeId) (staticScope : Option StaticScopeId) :
    a.bare.linkStatic id staticScope =
      (a.linkStatic id staticScope).map StaticScope.unlinked := by
  cases staticScope with
  | none => rfl
  | some sid =>
    refine List.ext_getElem? fun n => ?_
    simp only [linkStatic, bare, List.getElem?_modify, List.getElem?_map]
    cases a.staticScopes[n]? with
    | none => rfl
    | some s =>
      by_cases hn : sid.index.toNat = n
      · simp [hn, s.unlinked_link, StaticScope.link_bare]
      · simp [hn]

theorem withMethod_bare (a : Arena) (p : Header) (name : String) (isInstance : Bool)
    (line : UInt32) (staticScope : Option StaticScopeId) :
    (a.withMethod p name isInstance line staticScope).bare =
      a.bare.withMethod p name isInstance line staticScope := by
  have hlink := a.linkStatic_bare a.nextScopeId staticScope
  simp only [withMethod, nextScopeId_bare, hlink]
  simp [bare, Scope.untraced, Method.untraced, Method.new, Options.bare]

theorem begun_bare (a : Arena) (p : Header) (d : Description.Method) :
    a.bare.begun p d = (a.begun p d).bare := by
  have hid : a.bare.staticFor d = a.staticFor d := by
    simp only [staticFor, newStaticScope_bare]
  simp only [begun, hid, withMethod_bare, newStaticScope_bare]
  split <;> rfl

/-- Building a method gives the same id and the same bare arena, or fails for the same cause. -/
theorem buildMethod_bare (hs : a.scope? script = some s) (d : Description.Method) :
    (a.bare.buildMethod script d).mapError Failure.cause =
      ((a.buildMethod script d).mapError Failure.cause).map fun r => (r.1, r.2.bare) := by
  have hs' : a.bare.scope? script = some s.untraced := by rw [scope?_bare, hs]; rfl
  rw [buildMethod_eq hs, buildMethod_eq hs', nextScopeId_bare, s.header_untraced, begun_bare,
    method?_bare]
  cases (a.begun s.header d).method? a.nextScopeId with
  | error e => rfl
  | ok m =>
    change ((m.untraced.fill d).mapError _ >>= _) = ((m.fill d).mapError _ >>= _).map _
    rw [m.fill_untraced, bind_map_eq, map_bind_eq]
    refine bind_congr fun m' => ?_
    exact congrArg (fun a' => Except.ok (a.nextScopeId, a'))
      (setScope_bare _ _ (.method m')).symm

theorem scope?_of_buildMethod {r : ScopeId × Arena} {d : Description.Method}
    (hs : a.scope? script = some s) (h : a.buildMethod script d = .ok r) :
    ∃ s', r.2.scope? script = some s' := by
  have hb := buildMethod_eq hs d
  rw [h] at hb
  obtain ⟨m, -, hb⟩ := bind_eq_ok_iff.1 hb.symm
  obtain ⟨m', -, hb⟩ := bind_eq_ok_iff.1 hb
  cases hb
  obtain ⟨hlt, -⟩ := List.getElem?_eq_some_iff.1 hs
  have hlt' : script.index.toNat <
      ((a.begun s.header d).setScope a.nextScopeId (.method m')).scopes.length := by
    simp only [setScope, scopes_begun, List.length_set, List.length_append]
    omega
  exact ⟨_, List.getElem?_eq_getElem hlt'⟩

theorem buildMethods_bare (hs : a.scope? script = some s) (ds : List Description.Method) :
    (a.bare.buildMethods script ds).mapError Failure.cause =
      ((a.buildMethods script ds).mapError Failure.cause).map fun r => (r.1, r.2.bare) := by
  induction ds generalizing a s with
  | nil => rfl
  | cons d ds ih =>
    have hd := buildMethod_bare hs d
    simp only [buildMethods, mapError_bind, hd, bind_map_eq, map_bind_eq]
    cases hr : a.buildMethod script d with
    | error e => rfl
    | ok r =>
      obtain ⟨s', hs'⟩ := scope?_of_buildMethod hs hr
      change ((r.2.bare.buildMethods script ds).mapError _ >>= _) =
        ((r.2.buildMethods script ds).mapError _ >>= _)
      rw [ih hs', bind_map_eq]
      rfl

end Arena

namespace Description

variable {d : Description} {o o' : Options}

/-- The ids and the bare arena of a build. -/
def buildBare (d : Description) (o : Options) : Except BuildError (List ScopeId × Arena) :=
  ((d.build o).mapError Failure.cause).map fun r => (r.1, r.2.bare)

/-- A build under any options is the bare build, its arena made bare. -/
theorem buildBare_eq (d : Description) (o : Options) :
    d.buildBare o = (d.build .bare).mapError Failure.cause := by
  have hs : (d.root o).scope? ⟨0⟩ = some (.script script) := rfl
  exact (Arena.buildMethods_bare hs d.methods).symm

theorem options_of_build {r : List ScopeId × Arena} (h : d.build o = .ok r) :
    r.2.options = o := by
  obtain ⟨-, -, -, harena⟩ := build_eq_ok (a := r.2) h
  rw [harena]
  exact Arena.options_foldl_grown _ _ _

/-- What builds of one unit under two options have in common. -/
inductive BuildsAlike (o o' : Options) :
    Except (Failure Arena) (List ScopeId × Arena) →
      Except (Failure Arena) (List ScopeId × Arena) → Prop where
  | failed {e e' : Failure Arena} (cause : e.cause = e'.cause) :
    BuildsAlike o o' (.error e) (.error e')
  | built (ids : List ScopeId) {a a' : Arena} (options : a.options = o) (options' : a'.options = o')
      (bare : a.bare = a'.bare) (summary : ∀ id, a.summary? id = a'.summary? id) :
    BuildsAlike o o' (.ok (ids, a)) (.ok (ids, a'))

theorem build_alike (d : Description) (o o' : Options) :
    BuildsAlike o o' (d.build o) (d.build o') := by
  have h : d.buildBare o = d.buildBare o' := (d.buildBare_eq o).trans (d.buildBare_eq o').symm
  cases hr : d.build o with
  | error e =>
    cases hr' : d.build o' with
    | error e' =>
      rw [buildBare, buildBare, hr, hr'] at h
      exact .failed (Except.error.inj h)
    | ok r' =>
      rw [buildBare, buildBare, hr, hr'] at h
      cases h
  | ok r =>
    cases hr' : d.build o' with
    | error e' =>
      rw [buildBare, buildBare, hr, hr'] at h
      cases h
    | ok r' =>
      rw [buildBare, buildBare, hr, hr'] at h
      obtain ⟨hids, hbare⟩ := Prod.mk.inj (Except.ok.inj h)
      have ho := options_of_build hr
      have ho' := options_of_build hr'
      obtain ⟨ids, a⟩ := r
      obtain ⟨ids', a'⟩ := r'
      obtain rfl : ids = ids' := hids
      have hsummary : ∀ id, a.summary? id = a'.summary? id := by
        intro id
        rw [← a.summary?_bare, ← a'.summary?_bare, hbare]
      exact .built ids ho ho' hbare hsummary

end Description

theorem Report.ofSource_options (source : String) (o o' : Options) :
    Report.ofSource source o = Report.ofSource source o' := by
  unfold Report.ofSource
  refine bind_congr fun d => ?_
  have h := d.build_alike o o'
  generalize d.build o = r at h ⊢
  generalize d.build o' = r' at h ⊢
  cases h with
  | failed cause =>
    change Except.error (ReportError.build _) = Except.error (ReportError.build _)
    rw [cause]
  | @built ids a a' _ _ _ summary =>
    change (ids.mapM fun id => (a.summary? id).mapError _) >>= _ =
      (ids.mapM fun id => (a'.summary? id).mapError _) >>= _
    simp only [summary]

end MethodIR
