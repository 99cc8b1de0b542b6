import MethodIR.Host.Path

/-!
Going up from a path. Each step drops the last component, so that a path with `n` components has just
`n` paths above it, and each of them is the one with the first few of its components.
-/
namespace MethodIR.Path

variable {p q : Path} {rooted : Bool} {pieces : List String}

/-- The components among pieces, both in reverse. -/
def componentsReversed (rooted : Bool) : List String → List String
  | [] => []
  | piece :: before =>
    if isComponent rooted before piece then piece :: componentsReversed rooted before
    else componentsReversed rooted before

def components (p : Path) : List String := (componentsReversed p.rooted p.pieces.reverse).reverse

/-- The path `n` steps above, if there are so many. -/
def climb : Nat → Path → Option Path
  | 0, p => some p
  | n + 1, p => p.parent?.bind (climb n)

/-- Trimming stops at a component and passes over none. -/
theorem trimReversed_cases (rooted : Bool) (pieces : List String) :
    (trimReversed rooted pieces = [] ∧ componentsReversed rooted pieces = []) ∨
    ∃ piece before, trimReversed rooted pieces = piece :: before ∧
      componentsReversed rooted pieces = piece :: componentsReversed rooted before := by
  induction pieces with
  | nil => exact .inl ⟨rfl, rfl⟩
  | cons piece before ih =>
    by_cases h : isComponent rooted before piece
    · right
      exact ⟨piece, before, if_pos h, if_pos h⟩
    · rw [trimReversed, componentsReversed, if_neg h, if_neg h]
      exact ih

theorem componentsReversed_trimReversed (rooted : Bool) (pieces : List String) :
    componentsReversed rooted (trimReversed rooted pieces) =
      componentsReversed rooted pieces := by
  induction pieces with
  | nil => rfl
  | cons piece before ih =>
    by_cases h : isComponent rooted before piece
    · rw [trimReversed, if_pos h]
    · rw [trimReversed, componentsReversed, if_neg h, if_neg h]
      exact ih

theorem components_trim (p : Path) : p.trim.components = p.components := by
  simp only [components, trim, List.reverse_reverse, componentsReversed_trimReversed]

/-- A step up drops the last component. -/
theorem parent?_cases (p : Path) :
    (p.parent? = none ∧ p.components = []) ∨
    ∃ q, p.parent? = some q ∧ q.rooted = p.rooted ∧ ∃ last, p.components = q.components ++ [last] := by
  rcases trimReversed_cases p.rooted p.pieces.reverse with ⟨ht, hc⟩ | ⟨piece, before, ht, hc⟩
  · left
    simp [parent?, trim, components, ht, hc]
  · right
    refine ⟨trim { p.trim with pieces := p.trim.pieces.dropLast }, ?_, rfl, piece, ?_⟩
    · simp [parent?, trim, ht]
    · rw [components_trim]
      simp [components, trim, ht, hc]

theorem isSome_climb_iff (n : Nat) (p : Path) :
    (p.climb n).isSome ↔ n ≤ p.components.length := by
  induction n generalizing p with
  | zero => simp [climb]
  | succ n ih =>
    rcases parent?_cases p with ⟨hp, hc⟩ | ⟨q, hp, -, last, hc⟩
    · simp [climb, hp, hc]
    · simp [climb, hp, hc, ih]

theorem components_climb {n : Nat} (h : p.climb n = some q) : q.rooted = p.rooted ∧
    q.components = p.components.take (p.components.length - n) := by
  induction n generalizing p with
  | zero =>
    cases h
    simp
  | succ n ih =>
    rcases parent?_cases p with ⟨hp, hc⟩ | ⟨r, hp, hrooted, last, hc⟩
    · simp [climb, hp] at h
    · rw [climb, hp] at h
      obtain ⟨hq, hcomponents⟩ := ih h
      refine ⟨hq.trans hrooted, ?_⟩
      rw [hcomponents, hc, List.length_append, List.length_singleton, Nat.add_sub_add_right,
        List.take_append_of_le_length (Nat.sub_le ..)]

theorem ancestors_of_none (h : p.parent? = none) : p.ancestors = [p] := by
  rw [ancestors]
  split
  · rfl
  · rename_i hq
    cases h.symm.trans hq

theorem ancestors_of_some (h : p.parent? = some q) : p.ancestors = p :: q.ancestors := by
  rw [ancestors]
  split
  · rename_i hnone
    cases h.symm.trans hnone
  · rename_i hq
    cases h.symm.trans hq
    rfl

/-- The paths that are searched are those above, one after another. -/
theorem getElem?_ancestors (n : Nat) (p : Path) : p.ancestors[n]? = p.climb n := by
  induction n generalizing p with
  | zero =>
    rcases parent?_cases p with ⟨hp, -⟩ | ⟨q, hp, -⟩
    · rw [ancestors_of_none hp]
      rfl
    · rw [ancestors_of_some hp]
      rfl
  | succ n ih =>
    rcases parent?_cases p with ⟨hp, -⟩ | ⟨q, hp, -⟩
    · rw [ancestors_of_none hp, climb, hp]
      rfl
    · rw [ancestors_of_some hp, climb, hp]
      exact ih q

end MethodIR.Path
