import MethodIR.Proofs.Text.Quoting

/-!
Texts in lines. A line feed ends each line and stands nowhere else; between quotes it is escaped, so
that a quoted text never goes beyond its line.
-/
namespace MethodIR.Text

/-- Without a line feed. -/
def Unbroken (s : String) : Prop := '\n' ∉ s.toList

instance : DecidablePred Unbroken := fun s => inferInstanceAs (Decidable ('\n' ∉ s.toList))

/-- Split at its line feeds, the text falls into these lines, and nothing is left after the last. -/
def HasLines (text : String) (lines : List String) : Prop :=
  text.toList.splitOn '\n' = lines.map String.toList ++ [[]]

variable {s t : String} {lines : List String}

@[simp] theorem unbroken_append : Unbroken (s ++ t) ↔ Unbroken s ∧ Unbroken t := by
  simp [Unbroken, String.toList_append, not_or]

theorem unbroken_intercalate (hs : Unbroken s) (h : ∀ l ∈ lines, Unbroken l) :
    Unbroken (s.intercalate lines) := by
  induction lines with
  | nil =>
    rw [String.intercalate_nil]
    decide
  | cons l lines ih =>
    obtain ⟨hl, hlines⟩ := List.forall_mem_cons.1 h
    cases lines with
    | nil => rwa [String.intercalate_singleton]
    | cons l' lines =>
      rw [String.intercalate_cons_cons]
      exact unbroken_append.2 ⟨unbroken_append.2 ⟨hl, hs⟩, ih hlines⟩

/-! Quoted texts. -/

theorem shortEscapes_ne_newline : ∀ x ∈ shortEscapes, x.2 ≠ '\n' := by decide

theorem newline_notMem_escaped (c : Char) : '\n' ∉ escaped c := by
  rcases escaped_cases c with ⟨hc, -, -⟩ | ⟨e, he, hc⟩ | hc
  · -- A line feed does not stand for itself.
    rw [hc, List.mem_singleton]
    rintro rfl
    cases hc
  · have hletter : e ≠ '\n' := shortEscapes_ne_newline _ he
    rw [hc]
    simp [hletter.symm]
  · have hdigits : '\n' ∉ Nat.toDigits 16 c.toNat :=
      notMem_toDigits_hex (fun _ => Nat.digitChar_ne _ rfl) c.toNat
    rw [hc]
    simp [hdigits]

@[simp] theorem unbroken_quoted (s : String) : Unbroken (quoted s) := by
  intro h
  rw [toList_quoted, quotedChars, List.mem_cons, List.mem_append, List.mem_flatMap] at h
  rcases h with h | ⟨c, -, hc⟩ | h
  · cases h
  · exact newline_notMem_escaped c hc
  · cases List.mem_singleton.1 h

/-! Lines. -/

/-- Unbroken lines are found again in the text that they make up. -/
theorem hasLines_join (h : ∀ l ∈ lines, Unbroken l) :
    HasLines (String.join (lines.map (· ++ "\n"))) lines := by
  induction lines with
  | nil => rfl
  | cons l lines ih =>
    obtain ⟨hl, hlines⟩ := List.forall_mem_cons.1 h
    have hfirst : (String.join ((l :: lines).map (· ++ "\n"))).toList =
        l.toList ++ '\n' :: (String.join (lines.map (· ++ "\n"))).toList := by simp
    rw [HasLines, hfirst, List.splitOn_append_cons_self_of_not_mem hl, ih hlines]
    rfl

example : HasLines "a\n\nb\n" ["a", "", "b"] := by rfl

end MethodIR.Text
