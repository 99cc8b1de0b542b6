import MethodIR.Json.Document
import MethodIR.Proofs.Result

/-! Words, digits and signs, and string literals, which are read as they are written. -/
namespace MethodIR.Json

variable {ds rest : List Char}

/-- The first character, if there is one, is none of `p`. -/
def Stops (p : Char → Bool) (rest : List Char) : Prop := ∀ c, rest.head? = some c → p c = false

theorem stops_cons {p : Char → Bool} {c : Char} (h : p c = false) (cs : List Char) :
    Stops p (c :: cs) := by
  intro d hd
  cases hd
  exact h

theorem Stops.mono {p q : Char → Bool} (h : Stops p rest) (hpq : ∀ c, p c = false → q c = false) :
    Stops q rest := fun c hc => hpq c (h c hc)

/-! Words, which are as long as they can be. -/

theorem takeWhile_append {p : Char → Bool} {w : List Char} (hw : ∀ c ∈ w, p c)
    (hr : Stops p rest) :
    (w ++ rest).takeWhile p = w ∧ (w ++ rest).dropWhile p = rest := by
  have hstop : rest.takeWhile p = [] ∧ rest.dropWhile p = rest := by
    cases rest with
    | nil => exact ⟨rfl, rfl⟩
    | cons c cs => simp [hr c rfl]
  constructor
  · rw [List.takeWhile_append_of_pos hw, hstop.1, List.append_nil]
  · rw [List.dropWhile_append_of_pos hw, hstop.2]

/-- Words that are followed by something else end at the same place. -/
theorem Stops.append_inj {p : Char → Bool} {w w' rest' : List Char} (hr : Stops p rest)
    (hr' : Stops p rest') (hw : ∀ c ∈ w, p c) (hw' : ∀ c ∈ w', p c)
    (h : w ++ rest = w' ++ rest') : w = w' ∧ rest = rest' := by
  obtain ⟨htake, hdrop⟩ := takeWhile_append hw hr
  obtain ⟨htake', hdrop'⟩ := takeWhile_append hw' hr'
  rw [h] at htake hdrop
  exact ⟨htake.symm.trans htake', hdrop.symm.trans hdrop'⟩

/-! Digits. -/

theorem digitsOf_append (hd : ∀ c ∈ ds, c.isDigit) (hr : Stops Char.isDigit rest) :
    digitsOf (ds ++ rest) = ds ∧ afterDigits (ds ++ rest) = rest :=
  takeWhile_append hd hr

theorem isDigit_of_mem_toDigits {n : Nat} {c : Char} (hc : c ∈ Nat.toDigits 10 n) : c.isDigit :=
  Nat.isDigit_of_mem_toDigits (by decide) (by decide) hc

theorem digitChar_ne_zero : ∀ n < 10, n ≠ 0 → Nat.digitChar n ≠ '0' := by decide

/-- Zero is the only number with a zero in front. -/
theorem toDigits_cases (n : Nat) : n = 0 ∨
    ∃ c cs, Nat.toDigits 10 n = c :: cs ∧ c.isDigit ∧ c ≠ '0' := by
  induction n using Nat.strongRecOn with
  | ind n ih =>
    by_cases h0 : n = 0
    · exact .inl h0
    · by_cases hn : n < 10
      · exact .inr ⟨n.digitChar, [], Nat.toDigits_of_lt_base hn, by simp [hn],
          digitChar_ne_zero n hn h0⟩
      · rcases ih (n / 10) (by omega) with hz | ⟨c, cs, h, hc, hne⟩
        · omega
        · refine .inr ⟨c, cs ++ [(n % 10).digitChar], ?_, hc, hne⟩
          rw [Nat.toDigits_of_base_le (by decide) (by omega), h, List.cons_append]

theorem toDigits_cons (n : Nat) : ∃ c cs, Nat.toDigits 10 n = c :: cs ∧ c.isDigit := by
  rcases toDigits_cases n with rfl | ⟨c, cs, h, hc, -⟩
  · exact ⟨'0', [], rfl, rfl⟩
  · exact ⟨c, cs, h, hc⟩

/-! Signs. -/

theorem scanSign_digit {c : Char} (hc : c.isDigit) (cs : List Char) :
    scanSign (c :: cs) = (false, c :: cs) := by
  have hminus : c ≠ '-' := by
    rintro rfl
    cases hc
  have hplus : c ≠ '+' := by
    rintro rfl
    cases hc
  simp [scanSign, hminus, hplus]

theorem scanSign_intText (e : Int) (rest : List Char) :
    scanSign (Literal.intText e ++ rest) = (decide (e < 0), Nat.toDigits 10 e.natAbs ++ rest) := by
  by_cases he : e < 0
  · simp [Literal.intText, he, scanSign]
  · obtain ⟨c, cs, h, hc⟩ := toDigits_cons e.natAbs
    simp [Literal.intText, he, h, scanSign_digit hc]

/-! Strings. -/

/-- What is read of a string literal, with a character in front. -/
def withChar (c : Char) (r : Except Fault (List Char × List Char)) :
    Except Fault (List Char × List Char) := do
  let (cs, rest) ← r
  pure (c :: cs, rest)

theorem hexValue?_hexDigit : ∀ n < 16, hexValue? (hexDigit n) = some n := by decide

theorem scanTextFrom_hex {seen digit : Nat} (hs : seen < 3) (hd : digit < 16) (value : Nat)
    (cs : List Char) : scanTextFrom true (.hex none seen value) (hexDigit digit :: cs) =
      scanTextFrom true (.hex none (seen + 1) (value * 16 + digit)) cs := by
  simp only [scanTextFrom, hexValue?_hexDigit digit hd, if_pos hs]

theorem scanTextFrom_lastHex {c : Char} {value digit : Nat} (hd : digit < 16)
    (hc : value * 16 + digit = c.toNat) (hsmall : c.toNat < 0x20) (cs : List Char) :
    scanTextFrom true (.hex none 3 value) (hexDigit digit :: cs) =
      withChar c (scanTextFrom true .plain cs) := by
  have hhalf : isSecondHalf c.toNat = false ∧ isFirstHalf c.toNat = false := by
    simp [isSecondHalf, isFirstHalf]
    omega
  have hcomplete : Place.completeHex true none c.toNat = .ok (.plain, some c) := by
    simp [Place.completeHex, hhalf, Char.ofNat_toNat]
  simp only [scanTextFrom, hexValue?_hexDigit digit hd, hc, hcomplete]
  rfl

/-- A control character is read from its code. -/
theorem scanTextFrom_code {c : Char} (hc : c.toNat < 0x20) (cs : List Char) :
    scanTextFrom true .plain ('\\' :: 'u' :: hexDigit 0 :: hexDigit 0 :: hexDigit (c.toNat / 16) ::
      hexDigit (c.toNat % 16) :: cs) = withChar c (scanTextFrom true .plain cs) := by
  change scanTextFrom true (.hex none 0 0) _ = _
  rw [scanTextFrom_hex (by decide) (by decide), scanTextFrom_hex (by decide) (by decide),
    scanTextFrom_hex (by decide) (by omega), scanTextFrom_lastHex (by omega) (by omega) hc]

theorem scanTextFrom_writeChar (c : Char) (cs : List Char) :
    scanTextFrom true .plain (writeChar c ++ cs) = withChar c (scanTextFrom true .plain cs) := by
  unfold writeChar
  split
  case h_8 hquote hbackslash _ _ _ _ _ =>
    split
    · rename_i hc
      exact scanTextFrom_code hc cs
    · rename_i hc
      rw [List.singleton_append, scanTextFrom, if_neg hquote, if_neg hbackslash, if_neg hc]
      rfl
  all_goals rfl

theorem scanText_writeText (s : String) (rest : List Char) :
    scanText (s.toList.flatMap writeChar ++ '"' :: rest) = .ok (s, rest) := by
  have hread : ∀ cs : List Char,
      scanTextFrom true .plain (cs.flatMap writeChar ++ '"' :: rest) = .ok (cs, rest) := by
    intro cs
    induction cs with
    | nil => rfl
    | cons c cs ih =>
      rw [List.flatMap_cons, List.append_assoc, scanTextFrom_writeChar, ih]
      rfl
  rw [scanText, hread]
  change Except.ok (String.ofList s.toList, rest) = _
  rw [String.ofList_toList]

end MethodIR.Json
