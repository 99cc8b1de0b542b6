/-! Results that may be errors: when a sequence succeeds, and what other errors change. -/
namespace MethodIR

variable {α β γ ε ε' : Type} {g : ε → ε'} {x : Except ε α} {f : α → Except ε β}

theorem bind_eq_ok_iff {r : β} : x >>= f = .ok r ↔ ∃ a, x = .ok a ∧ f a = .ok r := by
  cases x <;> simp [bind, Except.bind]

theorem bind_eq_error_iff {e : ε} :
    x >>= f = .error e ↔ x = .error e ∨ ∃ a, x = .ok a ∧ f a = .error e := by
  cases x <;> simp [bind, Except.bind]

theorem map_eq_ok_iff {h : α → β} {r : β} : x.map h = .ok r ↔ ∃ a, x = .ok a ∧ h a = r := by
  cases x <;> simp [Except.map]

theorem mapError_bind (g : ε → ε') (x : Except ε α) (f : α → Except ε β) :
    (x >>= f).mapError g = x.mapError g >>= fun a => (f a).mapError g := by
  cases x <;> rfl

theorem map_bind_eq (h : β → γ) (x : Except ε α) (f : α → Except ε β) :
    (x >>= f).map h = x >>= fun a => (f a).map h := by
  cases x <;> rfl

theorem bind_map_eq (h : α → γ) (x : Except ε α) (f : γ → Except ε β) :
    x.map h >>= f = x >>= fun a => f (h a) := by
  cases x <;> rfl

theorem bind_eq_self {f : α → Except ε α} (h : ∀ a, f a = .ok a) : x >>= f = x := by
  cases x with
  | error e => rfl
  | ok a => exact h a

theorem mapError_ok (g : ε → ε') (a : α) : (Except.ok a : Except ε α).mapError g = .ok a := rfl

theorem mapM_mapError (g : ε → ε') (f : α → Except ε β) (as : List α) :
    as.mapM (fun a => (f a).mapError g) = (as.mapM f).mapError g := by
  induction as with
  | nil => rfl
  | cons a as ih =>
    simp only [List.mapM_cons, ih, mapError_bind]
    rfl

theorem mapError_eq_ok_iff {r : α} : x.mapError g = .ok r ↔ x = .ok r := by
  cases x with
  | error e =>
    constructor
    · intro h
      cases h
    · intro h
      cases h
  | ok a => rw [mapError_ok, Except.ok.injEq, Except.ok.injEq]

theorem mapError_eq_error_iff {e : ε'} : x.mapError g = .error e ↔ ∃ f, x = .error f ∧ g f = e := by
  cases x with
  | error f =>
    constructor
    · intro h
      cases h
      exact ⟨f, rfl, rfl⟩
    · rintro ⟨f, h, rfl⟩
      cases h
      rfl
  | ok a =>
    constructor
    · intro h
      cases h
    · rintro ⟨f, h, -⟩
      cases h

end MethodIR
