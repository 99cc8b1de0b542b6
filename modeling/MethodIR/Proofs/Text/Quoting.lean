import MethodIR.Proofs.Json.Tokens
import MethodIR.Text.Quoted

/-!
A quoted text is read back, whatever follows it: no character's form starts with the closing quote,
and of the forms of two characters none is the start of the other.
-/
namespace MethodIR.Text

variable {c d : Char} {r s : List Char}

/-! Numbers to the base of sixteen. -/

theorem digitChar_inj : ∀ n < 16, ∀ m < 16, Nat.digitChar n = Nat.digitChar m → n = m := by decide

/-- A number has one digit, or more than one. -/
theorem toDigits_hex_cases (n : Nat) :
    (n < 16 ∧ Nat.toDigits 16 n = [n.digitChar]) ∨
    (16 ≤ n ∧ Nat.toDigits 16 n = Nat.toDigits 16 (n / 16) ++ [(n % 16).digitChar]) := by
  by_cases h : n < 16
  · exact .inl ⟨h, Nat.toDigits_of_lt_base h⟩
  · exact .inr ⟨by omega, Nat.toDigits_of_base_le (by decide) (by omega)⟩

theorem toDigits_hex_inj {n m : Nat} (h : Nat.toDigits 16 n = Nat.toDigits 16 m) : n = m := by
  induction n using Nat.strongRecOn generalizing m with
  | ind n ih =>
    rcases toDigits_hex_cases n with ⟨hn, hdigits⟩ | ⟨hn, hdigits⟩
    · rcases toDigits_hex_cases m with ⟨hm, hdigits'⟩ | ⟨hm, hdigits'⟩
      · rw [hdigits, hdigits'] at h
        exact digitChar_inj n hn m hm (List.singleton_inj.1 h)
      · rw [hdigits, hdigits'] at h
        have hnil : [] = Nat.toDigits 16 (m / 16) := by simpa using congrArg List.dropLast h
        exact absurd hnil.symm Nat.toDigits_ne_nil
    · rcases toDigits_hex_cases m with ⟨hm, hdigits'⟩ | ⟨hm, hdigits'⟩
      · rw [hdigits, hdigits'] at h
        have hnil : Nat.toDigits 16 (n / 16) = [] := by simpa using congrArg List.dropLast h
        exact absurd hnil Nat.toDigits_ne_nil
      · rw [hdigits, hdigits'] at h
        obtain ⟨hinit, hlast⟩ := List.append_inj' h rfl
        have hquotient : n / 16 = m / 16 := ih (n / 16) (by omega) hinit
        have hremainder : n % 16 = m % 16 :=
          digitChar_inj _ (by omega) _ (by omega) (List.singleton_inj.1 hlast)
        omega

/-- What is no digit does not occur in a number. -/
theorem notMem_toDigits_hex (hc : ∀ n, Nat.digitChar n ≠ c) (n : Nat) : c ∉ Nat.toDigits 16 n := by
  induction n using Nat.strongRecOn with
  | ind n ih =>
    rcases toDigits_hex_cases n with ⟨-, hdigits⟩ | ⟨hn, hdigits⟩
    · rw [hdigits, List.mem_singleton]
      exact (hc _).symm
    · rw [hdigits, List.mem_append, List.mem_singleton]
      rintro (hmem | hlast)
      · exact ih (n / 16) (by omega) hmem
      · exact hc _ hlast.symm

/-! Escapes. -/

/-- The characters with a short escape, and the letter of each. -/
def shortEscapes : List (Char × Char) :=
  [('"', '"'), ('\\', '\\'), ('\x00', '0'), ('\t', 't'), ('\n', 'n'), ('\r', 'r')]

/-- A character stands for itself, or is escaped by a letter or by its number. -/
theorem escaped_cases (c : Char) :
    (escaped c = [c] ∧ c ≠ '\\' ∧ c ≠ '"') ∨
    (∃ e, (c, e) ∈ shortEscapes ∧ escaped c = ['\\', e]) ∨
    escaped c = '\\' :: 'u' :: '\x7b' :: (Nat.toDigits 16 c.toNat ++ ['\x7d']) := by
  unfold escaped
  split
  case h_7 c hquote hbackslash _ _ _ _ =>
    split
    · exact .inr (.inr rfl)
    · exact .inl ⟨rfl, hbackslash, hquote⟩
  all_goals exact .inr (.inl ⟨_, by decide, rfl⟩)

theorem shortEscapes_inj : ∀ x ∈ shortEscapes, ∀ y ∈ shortEscapes, x.2 = y.2 → x = y := by decide

theorem shortEscapes_ne_u : ∀ x ∈ shortEscapes, x.2 ≠ 'u' := by decide

/-- A number between braces ends at the closing brace. -/
theorem toDigits_brace_inj {n m : Nat}
    (h : Nat.toDigits 16 n ++ '\x7d' :: r = Nat.toDigits 16 m ++ '\x7d' :: s) : n = m ∧ r = s := by
  have hdigit : ∀ n, ∀ c ∈ Nat.toDigits 16 n, (c != '\x7d') = true := by
    intro n c hc
    refine bne_iff_ne.2 ?_
    rintro rfl
    exact notMem_toDigits_hex (fun _ => Nat.digitChar_ne _ rfl) n hc
  obtain ⟨hdigits, hrest⟩ := Json.Stops.append_inj (Json.stops_cons rfl r) (Json.stops_cons rfl s)
    (hdigit n) (hdigit m) h
  exact ⟨toDigits_hex_inj hdigits, (List.cons.inj hrest).2⟩

theorem escaped_append_inj (h : escaped c ++ r = escaped d ++ s) : c = d ∧ r = s := by
  rcases escaped_cases c with ⟨hc, hslash, -⟩ | ⟨e, he, hc⟩ | hc
  · rcases escaped_cases d with ⟨hd, -, -⟩ | ⟨f, -, hd⟩ | hd
    · rw [hc, hd] at h
      exact List.cons.inj h
    · rw [hc, hd] at h
      exact absurd (List.cons.inj h).1 hslash
    · rw [hc, hd] at h
      exact absurd (List.cons.inj h).1 hslash
  · rcases escaped_cases d with ⟨hd, hslash, -⟩ | ⟨f, hf, hd⟩ | hd
    · rw [hc, hd] at h
      exact absurd (List.cons.inj h).1.symm hslash
    · rw [hc, hd] at h
      obtain ⟨hef, hrest⟩ := List.cons.inj (List.cons.inj h).2
      have hpair := shortEscapes_inj _ he _ hf hef
      exact ⟨congrArg Prod.fst hpair, hrest⟩
    · rw [hc, hd] at h
      exact absurd (List.cons.inj (List.cons.inj h).2).1 (shortEscapes_ne_u _ he)
  · rcases escaped_cases d with ⟨hd, hslash, -⟩ | ⟨f, hf, hd⟩ | hd
    · rw [hc, hd] at h
      exact absurd (List.cons.inj h).1.symm hslash
    · rw [hc, hd] at h
      exact absurd (List.cons.inj (List.cons.inj h).2).1.symm (shortEscapes_ne_u _ hf)
    · rw [hc, hd] at h
      have hnumber : Nat.toDigits 16 c.toNat ++ '\x7d' :: r =
          Nat.toDigits 16 d.toNat ++ '\x7d' :: s := by
        simpa only [List.cons_append, List.append_assoc, List.nil_append, List.cons.injEq,
          true_and] using h
      obtain ⟨hcd, hrest⟩ := toDigits_brace_inj hnumber
      exact ⟨Char.toNat_inj.1 hcd, hrest⟩

/-- No form of a character starts as the closing quote does. -/
theorem escaped_append_ne_quote (c : Char) : escaped c ++ r ≠ '"' :: s := by
  intro h
  rcases escaped_cases c with ⟨hc, -, hquote⟩ | ⟨e, -, hc⟩ | hc
  · rw [hc] at h
    exact hquote (List.cons.inj h).1
  · rw [hc] at h
    cases (List.cons.inj h).1
  · rw [hc] at h
    cases (List.cons.inj h).1

theorem quotedChars_append_inj {cs ds : List Char}
    (h : quotedChars cs ++ r = quotedChars ds ++ s) : cs = ds ∧ r = s := by
  have hbody : cs.flatMap escaped ++ '"' :: r = ds.flatMap escaped ++ '"' :: s := by
    simpa [quotedChars] using h
  clear h
  induction cs generalizing ds with
  | nil =>
    cases ds with
    | nil => exact ⟨rfl, (List.cons.inj hbody).2⟩
    | cons d ds =>
      rw [List.flatMap_cons, List.append_assoc] at hbody
      exact absurd hbody.symm (escaped_append_ne_quote d)
  | cons c cs ih =>
    rw [List.flatMap_cons, List.append_assoc] at hbody
    cases ds with
    | nil => exact absurd hbody (escaped_append_ne_quote c)
    | cons d ds =>
      rw [List.flatMap_cons, List.append_assoc] at hbody
      obtain ⟨rfl, hrest⟩ := escaped_append_inj hbody
      obtain ⟨rfl, hrs⟩ := ih hrest
      exact ⟨rfl, hrs⟩

end MethodIR.Text
