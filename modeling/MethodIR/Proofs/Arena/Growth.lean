import MethodIR.Proofs.Arena.Change

/-!
Arenas only grow: every scope, static scope and file stays under its id, and a scope keeps all that
it holds. A scope that is new stands at the end, and the operation that made it gives its id.
-/
namespace MethodIR

/-- An item of a list with one more at the end is an old one, or that one. -/
theorem getElem?_concat_eq_some_iff {α : Type} {l : List α} {x y : α} {n : Nat} :
    (l ++ [x])[n]? = some y ↔ l[n]? = some y ∨ (n = l.length ∧ y = x) := by
  rcases Nat.lt_trichotomy n l.length with hn | rfl | hn
  · rw [List.getElem?_append_left hn]
    simp [Nat.ne_of_lt hn]
  · simp [eq_comm]
  · have hnone : l[n]? = none := List.getElem?_eq_none_iff.2 (by omega)
    have hnone' : (l ++ [x])[n]? = none := List.getElem?_eq_none_iff.2 (by simp; omega)
    simp [hnone, hnone', Nat.ne_of_gt hn]

theorem Frame.Extends.trans {f f' f'' : Frame} (h : f.Extends f') (h' : f'.Extends f'') :
    f.Extends f'' where
  header := h'.header.trans h.header
  names := h.names.trans h'.names
  instructions := h.instructions.trans h'.instructions

theorem Method.Extends.trans {m m' m'' : Method} (h : m.Extends m') (h' : m'.Extends m'') :
    m.Extends m'' where
  frame := h.frame.trans h'.frame
  isInstance := h'.isInstance.trans h.isInstance
  traced := h'.traced.trans h.traced
  signature := h.signature.trans h'.signature
  parameters := h.parameters.trans h'.parameters

theorem Scope.Extends.trans {s s' s'' : Scope} (h : s.Extends s') (h' : s'.Extends s'') :
    s.Extends s'' := by
  cases h with
  | script h =>
    cases h' with
    | script h' => exact .script (h.trans h')
  | method h =>
    cases h' with
    | method h' => exact .method (h.trans h')

/-- All that `a` holds is in `a'` under the same ids. -/
structure Arena.Extends (a a' : Arena) : Prop where
  scope : ∀ (n : Nat) (s : Scope), a.scopes[n]? = some s →
    ∃ s', a'.scopes[n]? = some s' ∧ s.Extends s'
  scopes : a.scopes.length ≤ a'.scopes.length
  staticScopes : a.staticScopes.length ≤ a'.staticScopes.length
  file : ∀ f name, a.files.file? f = some name → a'.files.file? f = some name
  files : a.files.size ≤ a'.files.size

namespace Arena

variable {a a' a'' : Arena} {op : Operation} {reply : Reply} {ops : List Operation}

theorem extends_refl (a : Arena) : a.Extends a where
  scope _ s hs := ⟨s, hs, s.extends_refl⟩
  scopes := Nat.le_refl _
  staticScopes := Nat.le_refl _
  file _ _ hf := hf
  files := Nat.le_refl _

theorem Extends.trans (h : a.Extends a') (h' : a'.Extends a'') : a.Extends a'' where
  scope n s hs := by
    obtain ⟨s', hs', he⟩ := h.scope n s hs
    obtain ⟨s'', hs'', he'⟩ := h'.scope n s' hs'
    exact ⟨s'', hs'', he.trans he'⟩
  scopes := Nat.le_trans h.scopes h'.scopes
  staticScopes := Nat.le_trans h.staticScopes h'.staticScopes
  file f name hf := h'.file f name (h.file f name hf)
  files := Nat.le_trans h.files h'.files

theorem scope_append {n : Nat} {s : Scope} (s' : Scope) (hs : a.scopes[n]? = some s) :
    ∃ s'', (a.scopes ++ [s'])[n]? = some s'' ∧ s.Extends s'' := by
  refine ⟨s, ?_, s.extends_refl⟩
  rw [List.getElem?_append_left (List.getElem?_eq_some_iff.1 hs).1, hs]

theorem length_linkStatic (a : Arena) (id : ScopeId) (staticScope : Option StaticScopeId) :
    (a.linkStatic id staticScope).length = a.staticScopes.length := by
  cases staticScope <;> simp [linkStatic]

theorem getElem?_linkStatic (a : Arena) (id : ScopeId) (staticScope : Option StaticScopeId)
    (sid : StaticScopeId) : (a.linkStatic id staticScope)[sid.index.toNat]? =
      (a.staticScope? sid).map fun ss =>
        if staticScope = some sid then ss.link a.options id else ss := by
  cases staticScope with
  | none => simp [linkStatic, staticScope?]
  | some sid' =>
    have hsid : sid'.index.toNat = sid.index.toNat ↔ sid' = sid := by
      rw [UInt32.toNat_inj]
      exact ⟨fun h => congrArg StaticScopeId.mk h, fun h => congrArg StaticScopeId.index h⟩
    simp only [linkStatic, List.getElem?_modify, hsid, Option.some.injEq]
    rfl

theorem Change.grows (h : a.Change op reply a') : a.Extends a' := by
  cases h with
  | newScript file line =>
    exact {
      scope := fun n s hs => scope_append _ hs
      scopes := by simp [Arena.newScript]
      staticScopes := Nat.le_refl _
      file := fun f name hf => StringTable.file?_internFile_of_some file hf
      files := a.files.size_le_internFile file }
  | newStaticScope => exact { extends_refl a with staticScopes := by simp [Arena.newStaticScope] }
  | newMethod hp hs =>
    exact { extends_refl a with
      scope := fun n s hs => scope_append _ hs
      scopes := by simp [withMethod]
      staticScopes := by simp [withMethod, length_linkStatic] }
  | missing ht hs => exact extends_refl a
  | @extended _ id _ s s' ht hs he =>
    refine { extends_refl a with scope := ?_, scopes := by simp [setScope] }
    intro n t ht
    by_cases hn : id.index.toNat = n
    · subst hn
      have hst : s = t := Option.some.inj (hs.symm.trans ht)
      subst hst
      exact ⟨s', scope?_setScope hs s', he⟩
    · exact ⟨t, by rw [setScope, List.getElem?_set_ne hn, ht], t.extends_refl⟩

theorem perform_grows (a : Arena) (op : Operation) : a.Extends (a.perform op).2 := by
  unfold perform
  split
  · rename_i hr
    exact (change_of_attempt hr).grows
  · exact extends_refl a

theorem run_grows (a : Arena) (ops : List Operation) : a.Extends (a.run ops).2 := by
  induction ops generalizing a with
  | nil => exact extends_refl a
  | cons op ops ih => exact (a.perform_grows op).trans (ih (a.perform op).2)

theorem nextScopeId_eq {id : ScopeId} (h : id.index.toNat = a.scopes.length) :
    a.nextScopeId = id := by
  rw [nextScopeId, ← h, UInt32.ofNat_toNat]

/-- What an operation can add at the end of the scopes. -/
inductive Creates (a : Arena) : Operation → Scope → Prop where
  | script (file : String) (line : UInt32) :
    Creates a (.newScript file line)
      (.script (.ofScript a.nextScopeId (a.files.internFile file).1 line))
  | method {parent : ScopeId} {p : Scope} {name : String} {isInstance : Bool} {line : UInt32}
      {staticScope : Option StaticScopeId} (hp : a.scope? parent = some p)
      (hs : ∀ sid, staticScope = some sid → sid.index.toNat < a.staticScopes.length) :
    Creates a (.newMethod parent name isInstance line staticScope)
      (.method (.new a.nextScopeId p.header name isInstance line staticScope a.options))

/-- A scope after an operation was there before it, or is the one that the operation answers. -/
theorem Change.scope_cases (h : a.Change op reply a') {n : Nat} {s' : Scope}
    (hs' : a'.scopes[n]? = some s') :
    (∃ s, a.scopes[n]? = some s ∧ s.Extends s') ∨
      (n = a.scopes.length ∧ reply = .scope a.nextScopeId ∧ a.Creates op s') := by
  cases h with
  | newScript file line =>
    rcases getElem?_concat_eq_some_iff.1 hs' with hold | ⟨hn, rfl⟩
    · exact .inl ⟨s', hold, s'.extends_refl⟩
    · exact .inr ⟨hn, rfl, .script file line⟩
  | newStaticScope => exact .inl ⟨s', hs', s'.extends_refl⟩
  | newMethod hp hs =>
    rcases getElem?_concat_eq_some_iff.1 hs' with hold | ⟨hn, rfl⟩
    · exact .inl ⟨s', hold, s'.extends_refl⟩
    · exact .inr ⟨hn, rfl, .method hp hs⟩
  | missing ht hs => exact .inl ⟨s', hs', s'.extends_refl⟩
  | @extended _ id _ s t ht hs he =>
    by_cases hn : id.index.toNat = n
    · subst hn
      have hst : t = s' := Option.some.inj ((scope?_setScope hs t).symm.trans hs')
      subst hst
      exact .inl ⟨s, hs, he⟩
    · rw [setScope, List.getElem?_set_ne hn] at hs'
      exact .inl ⟨s', hs', s'.extends_refl⟩

end Arena

end MethodIR
