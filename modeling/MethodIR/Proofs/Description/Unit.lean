import MethodIR.Proofs.Arena.Change
import MethodIR.Proofs.Description.Translation

/-!
A unit in one piece: a script, and below it one translation for each described method. A build gives
this arena, unless a method offends or the ids run out.
-/
namespace MethodIR

namespace Arena

variable {a : Arena} {p : Header} {script : ScopeId} {s : Scope}

/-- The static scope that a described method gets. -/
def staticFor (a : Arena) (d : Description.Method) : Option StaticScopeId :=
  if d.hasStaticScope then some a.newStaticScope.1 else none

/-- The empty method for a description as the next scope of an arena. -/
def emptyFor (a : Arena) (p : Header) (d : Description.Method) : Method :=
  .new a.nextScopeId p d.name d.isInstance d.line (a.staticFor d) a.options

/-- The arena with an empty method for a description. -/
def begun (a : Arena) (p : Header) (d : Description.Method) : Arena :=
  (if d.hasStaticScope then a.newStaticScope.2 else a).withMethod p d.name d.isInstance d.line
    (a.staticFor d)

/-- The translation of a description as the next scope of an arena. -/
def translated (a : Arena) (p : Header) (d : Description.Method) : Method :=
  (a.emptyFor p d).record d.instructions d.parameters d.names

/-- The arena with the translation of a description. -/
def grown (p : Header) (a : Arena) (d : Description.Method) : Arena :=
  { a.begun p d with scopes := a.scopes ++ [.method (a.translated p d)] }

theorem scopes_begun (a : Arena) (p : Header) (d : Description.Method) :
    (a.begun p d).scopes = a.scopes ++ [.method (a.emptyFor p d)] := by
  unfold begun
  split <;> rfl

/-- A method is begun empty, looked up under the next id and filled in place. -/
theorem buildMethod_eq (hs : a.scope? script = some s) (d : Description.Method) :
    (a.buildMethod script d).mapError Failure.cause = (do
      let m ← ((a.begun s.header d).method? a.nextScopeId).mapError .arena
      let m ← (m.fill d).mapError Failure.cause
      pure (a.nextScopeId, (a.begun s.header d).setScope a.nextScopeId (.method m))) := by
  have hn : (if d.hasStaticScope then a.newStaticScope.2 else a).newMethod script d.name
      d.isInstance d.line (a.staticFor d) = .ok (a.nextScopeId, a.begun s.header d) := by
    refine newMethod_eq_ok_iff.2 ⟨s, ?_, ?_, ?_, rfl⟩
    · split <;> exact hs
    · intro sid hsid
      by_cases hd : d.hasStaticScope = true
      · rw [staticFor, if_pos hd] at hsid
        cases hsid
        have hle := Nat.mod_le a.staticScopes.length (2 ^ 32)
        rw [if_pos hd]
        simp only [newStaticScope, List.length_append, List.length_singleton, UInt32.toNat_ofNat']
        omega
      · rw [staticFor, if_neg hd] at hsid
        cases hsid
    · split <;> rfl
  cases hd : d.hasStaticScope
  all_goals
    simp only [staticFor, hd, Bool.false_eq_true, if_true, if_false] at hn
    simp only [buildMethod, hd, Bool.false_eq_true, if_true, if_false, hn,
      Except.mapError, bind, Except.bind]
    cases (a.begun s.header d).method? a.nextScopeId with
    | error e => rfl
    | ok m =>
      dsimp only
      cases m.fill d <;> rfl

theorem toNat_nextScopeId (h : a.scopes.length < 2 ^ 32) :
    a.nextScopeId.index.toNat = a.scopes.length := UInt32.toNat_ofNat_of_lt' h

theorem length_scopes_grown (p : Header) (a : Arena) (d : Description.Method) :
    (grown p a d).scopes.length = a.scopes.length + 1 := by
  simp [grown]

theorem scope?_grown (h : a.scope? script = some s) (p : Header) (d : Description.Method) :
    (grown p a d).scope? script = some s := by
  obtain ⟨hi, -⟩ := List.getElem?_eq_some_iff.1 h
  rw [← h]
  exact List.getElem?_append_left hi

/-- While there are ids, a build of a method adds its translation or stops at its first offence. -/
theorem buildMethod_eq_grown (hs : a.scope? script = some s) (hsize : a.scopes.length < 2 ^ 32)
    (d : Description.Method) : (a.buildMethod script d).mapError Failure.cause = (do
      refuse d.offences
      pure (a.nextScopeId, grown s.header a d)) := by
  have hid := toNat_nextScopeId hsize
  have hm : (a.begun s.header d).method? a.nextScopeId = .ok (a.emptyFor s.header d) := by
    rw [method?_eq_ok_iff, scope?, scopes_begun, hid]
    simp
  have hset : (a.begun s.header d).setScope a.nextScopeId (.method (a.translated s.header d)) =
      grown s.header a d := by
    rw [setScope, scopes_begun, hid]
    simp [grown]
  have hfill : ((a.emptyFor s.header d).fill d).mapError Failure.cause =
      (do refuse d.offences; pure (a.translated s.header d)) := Method.fill_eq rfl rfl
  rw [buildMethod_eq hs, hm]
  change (((a.emptyFor s.header d).fill d).mapError Failure.cause >>= _) = _
  rw [hfill]
  simp only [bind_assoc, pure_bind, hset]

/-- The next id after the last one is that of the script again, so a build cannot go on. -/
theorem buildMethod_full {f : Frame} (hs : a.scope? ⟨0⟩ = some (.script f))
    (hsize : a.scopes.length = 2 ^ 32) (d : Description.Method) (r : ScopeId × Arena) :
    a.buildMethod ⟨0⟩ d ≠ .ok r := by
  intro h
  have hid : a.nextScopeId = ⟨0⟩ := by
    rw [nextScopeId, hsize]
    rfl
  have hscope : (a.begun f.header d).scope? ⟨0⟩ = some (.script f) := by
    rw [scope?, scopes_begun, List.getElem?_append_left (by rw [hsize]; decide)]
    exact hs
  have hb := buildMethod_eq hs d
  rw [h, hid, method?] at hb
  simp only [Scope.header, Scope.frame, hscope] at hb
  cases hb

/-- The ids of the next `n` scopes. -/
def nextScopeIds (a : Arena) (n : Nat) : List ScopeId :=
  (List.range' a.scopes.length n).map fun k => ⟨.ofNat k⟩

theorem buildMethods_eq (hs : a.scope? script = some s) (ds : List Description.Method)
    (hsize : a.scopes.length + ds.length ≤ 2 ^ 32) :
    (a.buildMethods script ds).mapError Failure.cause = (do
      refuse (ds.flatMap Description.Method.offences)
      pure (a.nextScopeIds ds.length, ds.foldl (grown s.header) a)) := by
  induction ds generalizing a with
  | nil => rfl
  | cons d ds ih =>
    rw [List.length_cons] at hsize
    have hd := buildMethod_eq_grown hs (by omega) d
    have hds := ih (scope?_grown hs s.header d) (by rw [length_scopes_grown]; omega)
    have hids : a.nextScopeId :: (grown s.header a d).nextScopeIds ds.length =
        a.nextScopeIds (d :: ds).length := by
      rw [nextScopeIds, length_scopes_grown]
      rfl
    simp only [buildMethods, mapError_bind, hd, bind_assoc, pure_bind, hds, List.flatMap_cons,
      refuse_append, List.foldl_cons, ← hids]
    rfl

theorem length_le_of_buildMethods {f : Frame} (hs : a.scope? ⟨0⟩ = some (.script f))
    (ha : a.scopes.length ≤ 2 ^ 32) {ds : List Description.Method} {r : List ScopeId × Arena}
    (h : a.buildMethods ⟨0⟩ ds = .ok r) : a.scopes.length + ds.length ≤ 2 ^ 32 := by
  induction ds generalizing a r with
  | nil => exact ha
  | cons d ds ih =>
    obtain ⟨r', hd, h⟩ := bind_eq_ok_iff.1 h
    obtain ⟨r'', hds, -⟩ := bind_eq_ok_iff.1 h
    have hlt : a.scopes.length < 2 ^ 32 :=
      Nat.lt_of_le_of_ne ha fun hfull => buildMethod_full hs hfull d r' hd
    have hb : (a.buildMethod ⟨0⟩ d).mapError Failure.cause = .ok r' := mapError_eq_ok_iff.2 hd
    rw [buildMethod_eq_grown hs hlt, refuse_bind_eq_ok_iff] at hb
    obtain ⟨-, rfl⟩ := hb
    have hlen := length_scopes_grown f.header a d
    have hrest := ih (scope?_grown hs f.header d) (by omega) hds
    rw [List.length_cons]
    omega

/-- The scopes after a build: those before it, then one translation for each description. -/
theorem scopes_foldl_grown (a : Arena) (p : Header) (ds : List Description.Method) :
    (ds.foldl (grown p) a).scopes = a.scopes ++
      mapBefore (fun before d => .method ((before.foldl (grown p) a).translated p d)) ds := by
  induction ds using List.reverseRecOn with
  | nil => simp
  | append_singleton ds d ih =>
    rw [List.foldl_concat, mapBefore_concat, ← List.append_assoc, ← ih]
    rfl

theorem files_foldl_grown (a : Arena) (p : Header) (ds : List Description.Method) :
    (ds.foldl (grown p) a).files = a.files := by
  induction ds generalizing a with
  | nil => rfl
  | cons d ds ih =>
    rw [List.foldl_cons, ih]
    unfold grown begun
    split <;> rfl

end Arena

namespace Description

open Arena (grown)

variable {d : Description} {o : Options}

/-- The script of every unit. -/
def script : Frame := .ofScript ⟨0⟩ ⟨0⟩ 1

/-- The arena with nothing but the script. -/
def root (d : Description) (o : Options) : Arena := ((Arena.new o).newScript d.file 1).2

/-- The arena of a unit: the script and all translations below it. -/
def arena (d : Description) (o : Options) : Arena :=
  d.methods.foldl (grown script.header) (d.root o)

theorem scopes_root (d : Description) (o : Options) : (d.root o).scopes = [.script script] := rfl

theorem getElem?_nextScopeIds_root {k : Nat} (hk : k < d.methods.length) :
    ((d.root o).nextScopeIds d.methods.length)[k]? = some ⟨.ofNat (k + 1)⟩ := by
  simp [Arena.nextScopeIds, scopes_root, hk, Nat.add_comm]

theorem build_eq (hsize : d.methods.length < 2 ^ 32) :
    (d.build o).mapError Failure.cause = (do
      refuse d.offences
      pure ((d.root o).nextScopeIds d.methods.length, d.arena o)) := by
  have hlen : (d.root o).scopes.length = 1 := rfl
  have hs : (d.root o).scope? ⟨0⟩ = some (.script script) := rfl
  exact Arena.buildMethods_eq hs d.methods (by omega)

theorem length_lt_of_build {r : List ScopeId × Arena} (h : d.build o = .ok r) :
    d.methods.length < 2 ^ 32 := by
  have hlen : (d.root o).scopes.length = 1 := rfl
  have hs : (d.root o).scope? ⟨0⟩ = some (.script script) := rfl
  have hle := Arena.length_le_of_buildMethods hs (by omega) h
  omega

/-- The methods of a unit, each behind those described before it. -/
theorem scopes_arena (d : Description) (o : Options) : (d.arena o).scopes =
    .script script :: mapBefore (fun before m => .method
      ((before.foldl (grown script.header) (d.root o)).translated script.header m)) d.methods :=
  Arena.scopes_foldl_grown (d.root o) script.header d.methods

theorem fileName?_arena (d : Description) (o : Options) :
    (d.arena o).fileName? ⟨0⟩ = .ok d.file := by
  have hf : (d.arena o).files = (d.root o).files := Arena.files_foldl_grown _ _ _
  have hd : (d.root o).files.file? ⟨0⟩ = some d.file := rfl
  rw [Arena.fileName?, hf, hd]

end Description

end MethodIR
