import MethodIR.Proofs.Description.Hygiene
import MethodIR.Proofs.Instruction.Tokens

/-!
The words of an instruction's text. Names, temporaries and numbers are words, and a name that is an
identifier other than `nil` is taken neither for a temporary nor for a constant.
-/
namespace MethodIR

/-- A letter or an underscore, then letters, digits and underscores. -/
def isIdentifier (name : String) : Bool :=
  match name.toList with
  | [] => false
  | c :: cs => (c.isAlpha || c == '_') && cs.all fun d => d.isAlphanum || d == '_'

/-- The name of the block, or an identifier other than `nil`. -/
def isPlainName (name : String) : Bool :=
  name == blockName || isIdentifier name && name != "nil"

/-- A named variable has a plain name. -/
def Variable.isPlain : Variable → Bool
  | .ofLocal v => isPlainName v.name
  | .ofTemporary _ => true

/-- What is left of a variable when the depth and the slot of a named one are forgotten. -/
def Variable.bare : Variable → Variable
  | .ofLocal v => .ofLocal { v with depth := 0, slot := 0 }
  | .ofTemporary v => .ofTemporary v

open Token

variable {v w : Variable}

/-! Words. -/

theorem isIdentifier_cases {name : String} (h : isIdentifier name) : ∃ c cs,
    name.toList = c :: cs ∧ (c.isAlpha ∨ c = '_') ∧ ∀ d ∈ cs, d.isAlphanum ∨ d = '_' := by
  unfold isIdentifier at h
  cases hname : name.toList with
  | nil => simp [hname] at h
  | cons c cs =>
    refine ⟨c, cs, rfl, ?_⟩
    simpa [hname] using h

theorem isWordChar_of_isAlphanum {c : Char} (h : c.isAlphanum) : isWordChar c := by
  simp [isWordChar, h]

/-- In this form it can be decided. -/
theorem isWord_of_all {w : String} (hne : w ≠ "") (h : w.toList.all isWordChar) : IsWord w :=
  ⟨hne, List.all_eq_true.1 h⟩

theorem isWord_of_isIdentifier {name : String} (h : isIdentifier name) : IsWord name := by
  obtain ⟨c, cs, hname, hc, hcs⟩ := isIdentifier_cases h
  constructor
  · rintro rfl
    cases hname
  · intro d hd
    rw [hname] at hd
    have hletter : d.isAlphanum ∨ d = '_' := by
      rcases List.mem_cons.1 hd with rfl | hd
      · rcases hc with halpha | rfl
        · left
          simp [Char.isAlphanum, halpha]
        · exact .inr rfl
      · exact hcs d hd
    rcases hletter with halnum | rfl
    · exact isWordChar_of_isAlphanum halnum
    · decide

theorem isWord_append {s t : String} (hs : IsWord s) (ht : ∀ c ∈ t.toList, isWordChar c) :
    IsWord (s ++ t) := by
  constructor
  · intro h
    exact hs.1 (String.append_eq_empty_iff.1 h).1
  · intro c hc
    rw [String.toList_append, List.mem_append] at hc
    rcases hc with hc | hc
    · exact hs.2 c hc
    · exact ht c hc

theorem isWordChar_of_mem_toDigits {n : Nat} {c : Char} (h : c ∈ Nat.toDigits 10 n) :
    isWordChar c := by
  have hdigit := Json.isDigit_of_mem_toDigits h
  exact isWordChar_of_isAlphanum (by simp [Char.isAlphanum, hdigit])

theorem toList_toString (n : UInt32) : (toString n).toList = Nat.toDigits 10 n.toNat :=
  Nat.toList_repr

theorem toList_toString_int (n : Int) : (toString n).toList = Json.Literal.intText n := by
  cases n with
  | ofNat n => exact Nat.toList_repr
  | negSucc n =>
    change ("-" ++ Nat.repr (n + 1)).toList = _
    rw [String.toList_append, Nat.toList_repr, Json.Literal.intText,
      if_pos (Int.negSucc_lt_zero n)]
    rfl

theorem isWord_toString (n : UInt32) : IsWord (toString n) := by
  obtain ⟨c, cs, hcs, -⟩ := Json.toDigits_cons n.toNat
  have hlist := toList_toString n
  constructor
  · intro h
    rw [h, hcs] at hlist
    cases hlist
  · intro c hc
    rw [hlist] at hc
    exact isWordChar_of_mem_toDigits hc

/-- An integer starts with a digit or its sign. -/
theorem toString_int_cons (n : Int) : ∃ c cs, (toString n).toList = c :: cs ∧
    (c = '-' ∨ c.isDigit) := by
  rw [toList_toString_int]
  by_cases hn : n < 0
  · exact ⟨'-', Nat.toDigits 10 n.natAbs, by simp [Json.Literal.intText, hn], .inl rfl⟩
  · obtain ⟨c, cs, hcs, hc⟩ := Json.toDigits_cons n.natAbs
    exact ⟨c, cs, by simp [Json.Literal.intText, hn, hcs], .inr hc⟩

theorem isWord_toString_int (n : Int) : IsWord (toString n) := by
  obtain ⟨c, cs, hcs, -⟩ := toString_int_cons n
  constructor
  · intro h
    rw [h] at hcs
    cases hcs
  · intro d hd
    rw [toList_toString_int, Json.Literal.intText, List.mem_append] at hd
    rcases hd with hsign | hdigit
    · split at hsign
      · rw [List.mem_singleton.1 hsign]
        decide
      · cases hsign
    · exact isWordChar_of_mem_toDigits hdigit

theorem toString_inj {n m : UInt32} (h : toString n = toString m) : n = m := by
  have hdigits : Nat.toDigits 10 n.toNat = Nat.toDigits 10 m.toNat := by
    rw [← toList_toString, ← toList_toString, h]
  have hnat := congrArg (fun ds => Nat.ofDigitChars 10 ds 0) hdigits
  simp only [Nat.ofDigitChars_ten_toDigits] at hnat
  exact UInt32.toNat_inj.1 hnat

theorem toString_int_inj {n m : Int} (h : toString n = toString m) : n = m := by
  have hscan : Json.scanSign (Json.Literal.intText n ++ []) =
      Json.scanSign (Json.Literal.intText m ++ []) := by
    rw [← toList_toString_int, ← toList_toString_int, h]
  rw [Json.scanSign_intText, Json.scanSign_intText, Prod.mk.injEq, List.append_nil,
    List.append_nil] at hscan
  obtain ⟨hsign, hdigits⟩ := hscan
  have habs := congrArg (fun ds => Nat.ofDigitChars 10 ds 0) hdigits
  simp only [Nat.ofDigitChars_ten_toDigits] at habs
  have hneg : n < 0 ↔ m < 0 := decide_eq_decide.1 hsign
  omega

/-! Variables. -/

theorem isPlain_ofLocal {v : LocalVariable} (h : Variable.isPlain (.ofLocal v)) :
    v.name = blockName ∨ isIdentifier v.name ∧ v.name ≠ "nil" := by
  simpa [Variable.isPlain, isPlainName] using h

theorem isWord_text (h : v.isPlain) : IsWord v.text := by
  cases v with
  | ofLocal v =>
    rcases isPlain_ofLocal h with hblock | ⟨hname, -⟩
    · rw [Variable.text, hblock]
      exact isWord_of_all (by decide) (by decide)
    · exact isWord_of_isIdentifier hname
  | ofTemporary v =>
    refine isWord_append (isWord_of_all (by decide) (by decide)) ?_
    exact (isWord_toString v.index).2

/-- A variable starts with a percent sign, a letter or an underscore. -/
theorem text_cons (h : v.isPlain) : ∃ c cs, v.text.toList = c :: cs ∧
    (c = '%' ∨ c.isAlpha ∨ c = '_') := by
  cases v with
  | ofLocal v =>
    rcases isPlain_ofLocal h with hblock | ⟨hname, -⟩
    · exact ⟨'%', "block".toList, by rw [Variable.text, hblock]; decide, .inl rfl⟩
    · obtain ⟨c, cs, hcs, hc, -⟩ := isIdentifier_cases hname
      exact ⟨c, cs, hcs, .inr hc⟩
  | ofTemporary v => exact ⟨'%', _, v.toList_text, .inl rfl⟩

theorem bare_of_text (hv : v.isPlain) (hw : w.isPlain) (h : v.text = w.text) :
    v.bare = w.bare := by
  have hne : ∀ (v : LocalVariable) (t : TemporaryVariable), Variable.isPlain (.ofLocal v) →
      v.name ≠ t.text := by
    intro v t hv hname
    rcases isPlain_ofLocal hv with hblock | ⟨hidentifier, -⟩
    · exact t.text_ne_blockName (hname.symm.trans hblock)
    · obtain ⟨c, cs, hcs, hc, -⟩ := isIdentifier_cases hidentifier
      rw [hname, t.toList_text] at hcs
      cases hcs
      rcases hc with hc | hc <;> revert hc <;> decide
  cases v with
  | ofLocal v =>
    cases w with
    | ofLocal w =>
      have hname : v.name = w.name := h
      simp [Variable.bare, hname]
    | ofTemporary t => exact absurd h (hne v t hv)
  | ofTemporary t =>
    cases w with
    | ofLocal w => exact absurd h.symm (hne w t hw)
    | ofTemporary u => rw [TemporaryVariable.text_inj h]

theorem text_ne_nil (h : v.isPlain) : v.text ≠ "nil" := by
  intro htext
  cases v with
  | ofLocal v =>
    rcases isPlain_ofLocal h with hblock | ⟨-, hne⟩
    · rw [Variable.text, hblock] at htext
      revert htext
      decide
    · exact hne htext
  | ofTemporary v =>
    have hlist := congrArg String.toList htext
    rw [Variable.text, v.toList_text] at hlist
    cases hlist

theorem text_ne_self (h : v.isPlain) : v.text ≠ "%self" := by
  intro htext
  cases v with
  | ofLocal v =>
    rcases isPlain_ofLocal h with hblock | ⟨hname, -⟩
    · rw [Variable.text, hblock] at htext
      revert htext
      decide
    · have hself : v.name = "%self" := htext
      rw [hself] at hname
      revert hname
      decide
  | ofTemporary v =>
    have hlist := congrArg String.toList htext
    rw [Variable.text, v.toList_text] at hlist
    cases hlist

/-- No integer starts as a word does that is none. -/
theorem toString_int_ne {n : Int} {s : String} {c : Char} {cs : List Char}
    (hs : s.toList = c :: cs) (hminus : c ≠ '-') (hdigit : ¬ c.isDigit) : toString n ≠ s := by
  intro h
  obtain ⟨d, ds, hds, hd⟩ := toString_int_cons n
  rw [h, hs] at hds
  cases hds
  rcases hd with hd | hd
  · exact hminus hd
  · exact hdigit hd

theorem not_isDigit_of_isAlpha {c : Char} (h : c.isAlpha) : ¬ c.isDigit := by
  intro hdigit
  have hnine : c.toNat ≤ '9'.toNat := (Char.isDigit_iff_toNat.1 hdigit).2
  rcases Bool.or_eq_true_iff.1 h with hupper | hlower
  · obtain ⟨hA, -⟩ : 'A'.toNat ≤ c.toNat ∧ c.toNat ≤ 'Z'.toNat := of_decide_eq_true hupper
    exact absurd (Nat.le_trans hA hnine) (by decide)
  · have ha : 'a'.toNat ≤ c.toNat := of_decide_eq_true (Bool.and_eq_true_iff.1 hlower).1
    exact absurd (Nat.le_trans ha hnine) (by decide)

theorem text_ne_toString (h : v.isPlain) (n : Int) : toString n ≠ v.text := by
  obtain ⟨c, cs, hcs, hc⟩ := text_cons h
  have hdigit : ¬ c.isDigit := by
    intro hdigit
    rcases hc with rfl | halpha | rfl
    · revert hdigit
      decide
    · exact not_isDigit_of_isAlpha halpha hdigit
    · revert hdigit
      decide
  refine toString_int_ne hcs ?_ hdigit
  rintro rfl
  revert hc
  decide

end MethodIR
