import MethodIR.Proofs.Json.Tokens

/-!
Numerals: what a text may have for a number, of any length, and the literal that is read of it. A
numeral is an integer of the reader if it has no fraction and no exponent and is not a zero with a
minus.
-/
namespace MethodIR.Json

variable {rest : List Char}

/-- A run of one digit or more. -/
structure Digits where
  chars : List Char
  ne_nil : chars ≠ []
  isDigit : ∀ c ∈ chars, c.isDigit

namespace Digits

def value (d : Digits) : Nat := Nat.ofDigitChars 10 d.chars 0

def ofNat (n : Nat) : Digits where
  chars := Nat.toDigits 10 n
  ne_nil := by
    obtain ⟨c, cs, h, -⟩ := toDigits_cons n
    rw [h]
    exact List.cons_ne_nil c cs
  isDigit _ := isDigit_of_mem_toDigits

theorem value_ofNat (n : Nat) : (ofNat n).value = n := Nat.ofDigitChars_ten_toDigits

theorem cons (d : Digits) : ∃ c cs, d.chars = c :: cs ∧ c.isDigit := by
  obtain ⟨c, cs, h⟩ := List.exists_cons_of_ne_nil d.ne_nil
  refine ⟨c, cs, h, d.isDigit c ?_⟩
  rw [h]
  exact List.mem_cons_self

theorem isEmpty (d : Digits) : d.chars.isEmpty = false :=
  Bool.eq_false_iff.2 fun h => d.ne_nil (List.isEmpty_iff.1 h)

theorem read (d : Digits) (hr : Stops Char.isDigit rest) :
    digitsOf (d.chars ++ rest) = d.chars ∧ afterDigits (d.chars ++ rest) = rest :=
  digitsOf_append d.isDigit hr

end Digits

inductive Sign where
  | none
  | plus
  | minus
deriving DecidableEq

def Sign.text : Sign → List Char
  | .none => []
  | .plus => ['+']
  | .minus => ['-']

structure Exponent where
  letter : Char
  sign : Sign
  digits : Digits
  letter_eq : letter = 'e' ∨ letter = 'E'

namespace Exponent

def value (e : Exponent) : Int := if e.sign = .minus then -e.digits.value else e.digits.value

def text (e : Exponent) : List Char := e.letter :: (e.sign.text ++ e.digits.chars)

end Exponent

/-- A number as a text may have it. No zero stands in front of other digits. -/
structure Numeral where
  negative : Bool
  whole : Digits
  fraction : Option Digits
  exponent : Option Exponent
  noLeadingZero : whole.chars = ['0'] ∨ whole.chars.head? ≠ some '0'

namespace Numeral

def signText (negative : Bool) : List Char := if negative then ['-'] else []

def fractionText : Option Digits → List Char
  | none => []
  | some d => '.' :: d.chars

def exponentText : Option Exponent → List Char
  | none => []
  | some e => e.text

def fractionDigits : Option Digits → List Char
  | none => []
  | some d => d.chars

def text (t : Numeral) : List Char :=
  signText t.negative ++ (t.whole.chars ++ (fractionText t.fraction ++ exponentText t.exponent))

def literal (t : Numeral) : Literal :=
  ⟨t.negative, t.whole.value, fractionDigits t.fraction, t.exponent.map Exponent.value⟩

/-- Neither fraction nor exponent, nor the zero with a minus. -/
def IsPlain (t : Numeral) : Prop :=
  t.fraction = none ∧ t.exponent = none ∧ ¬ (t.negative ∧ t.whole.chars = ['0'])

/-- The integer that a plain numeral is. -/
def integer (t : Numeral) : Int := if t.negative then -t.whole.value else t.whole.value

end Numeral

open Numeral (signText fractionText exponentText fractionDigits)

/-! Reading. -/

/-- Whether a number goes on with a character. -/
def continues (c : Char) : Bool := c.isDigit || c == '.' || c == 'e' || c == 'E'

theorem scanWhole_digits {d : Digits} (hd : d.chars = ['0'] ∨ d.chars.head? ≠ some '0')
    (hr : Stops Char.isDigit rest) : scanWhole (d.chars ++ rest) = .ok (d.value, rest) := by
  obtain ⟨hdigits, hafter⟩ := d.read hr
  rw [scanWhole, hdigits, hafter, Digits.value]
  rcases hd with hzero | hzero
  · rw [hzero]
    rfl
  · obtain ⟨c, cs, h, -⟩ := d.cons
    rw [h] at hzero ⊢
    have hc : c ≠ '0' := fun hc => hzero (congrArg some hc)
    split
    · contradiction
    · rename_i heq
      cases heq
      exact absurd rfl hc
    · rename_i heq
      cases heq
      exact absurd rfl hc
    · rfl

theorem scanFraction_text (fraction : Option Digits)
    (hr : Stops (fun c => c.isDigit || c == '.') rest) :
    scanFraction (fractionText fraction ++ rest) = .ok (fractionDigits fraction, rest) := by
  cases fraction with
  | none =>
    change scanFraction rest = _
    rw [scanFraction.eq_def]
    split
    · cases hr _ rfl
    · rfl
  | some d =>
    obtain ⟨hdigits, hafter⟩ := d.read (hr.mono (by simp +contextual))
    change scanFraction ('.' :: (d.chars ++ rest)) = _
    rw [scanFraction, hdigits, hafter, d.isEmpty]
    rfl

theorem scanSign_text (sign : Sign) (d : Digits) (rest : List Char) :
    scanSign (sign.text ++ (d.chars ++ rest)) = (decide (sign = .minus), d.chars ++ rest) := by
  cases sign with
  | none =>
    obtain ⟨c, cs, h, hc⟩ := d.cons
    rw [h]
    exact scanSign_digit hc (cs ++ rest)
  | plus => rfl
  | minus => rfl

theorem scanExponent_text (exponent : Option Exponent) (hr : Stops continues rest) :
    scanExponent (exponentText exponent ++ rest) = .ok (exponent.map Exponent.value, rest) := by
  cases exponent with
  | none =>
    rw [exponentText, List.nil_append, scanExponent.eq_def]
    split
    · cases hr _ rfl
    · cases hr _ rfl
    · rfl
  | some e =>
    obtain ⟨hdigits, hafter⟩ := e.digits.read (hr.mono (by simp +contextual [continues]))
    have hsign := scanSign_text e.sign e.digits rest
    have htext : exponentText (some e) ++ rest =
        e.letter :: (e.sign.text ++ (e.digits.chars ++ rest)) := by
      simp [exponentText, Exponent.text]
    rw [htext]
    rcases e.letter_eq with hletter | hletter <;>
      simp only [hletter, scanExponent, hsign, hdigits, hafter, e.digits.isEmpty, Bool.false_eq_true,
        if_false, decide_eq_true_eq] <;> rfl

/-- Past the sign, a literal is read in three parts. -/
theorem scanLiteral_signed (negative : Bool) {cs : List Char} (hc : Stops (· == '-') cs) :
    scanLiteral (signText negative ++ cs) = (do
      let (whole, cs) ← scanWhole cs
      let (fraction, cs) ← scanFraction cs
      let (exponent, cs) ← scanExponent cs
      pure (⟨negative, whole, fraction, exponent⟩, cs)) := by
  cases negative with
  | true => rfl
  | false =>
    have hplain : (cs.head? == some '-') = false := by
      cases cs with
      | nil => rfl
      | cons c cs => simpa using hc c rfl
    change scanLiteral cs = _
    rw [scanLiteral, hplain]
    rfl

namespace Numeral

theorem scanLiteral_text (t : Numeral) (hr : Stops continues rest) :
    scanLiteral (t.text ++ rest) = .ok (t.literal, rest) := by
  -- The exponent does not go on with a point or a digit, nor the fraction with a digit.
  have hexponent : Stops (fun c => c.isDigit || c == '.') (exponentText t.exponent ++ rest) := by
    cases t.exponent with
    | none => exact hr.mono (by simp +contextual [continues])
    | some e =>
      refine stops_cons ?_ _
      rcases e.letter_eq with h | h <;> rw [h] <;> rfl
  have hfraction : Stops Char.isDigit
      (fractionText t.fraction ++ (exponentText t.exponent ++ rest)) := by
    cases t.fraction with
    | none => exact hexponent.mono (by simp +contextual)
    | some d => exact stops_cons rfl _
  have hunsigned : Stops (· == '-') (t.whole.chars ++
      (fractionText t.fraction ++ (exponentText t.exponent ++ rest))) := by
    obtain ⟨c, cs, h, hc⟩ := t.whole.cons
    rw [h]
    refine stops_cons ?_ _
    rw [beq_eq_false_iff_ne]
    rintro rfl
    cases hc
  have htext : t.text ++ rest = signText t.negative ++ (t.whole.chars ++
      (fractionText t.fraction ++ (exponentText t.exponent ++ rest))) := by
    simp [text]
  rw [htext, scanLiteral_signed t.negative hunsigned, scanWhole_digits t.noLeadingZero hfraction]
  change (scanFraction _ >>= _) = _
  rw [scanFraction_text t.fraction hexponent]
  change (scanExponent _ >>= _) = _
  rw [scanExponent_text t.exponent hr]
  rfl

theorem text_cons (t : Numeral) : ∃ c cs, t.text = c :: cs ∧ (c = '-' ∨ c.isDigit) := by
  rw [text]
  cases t.negative with
  | true => exact ⟨'-', _, rfl, .inl rfl⟩
  | false =>
    obtain ⟨c, cs, h, hc⟩ := t.whole.cons
    rw [h]
    exact ⟨c, _, rfl, .inr hc⟩

end Numeral

/-! The numerals that literals are written as. -/

/-- The digits after the point are digits. -/
def Literal.WellFormed (l : Literal) : Prop := ∀ c ∈ l.fraction, c.isDigit

theorem Digits.noLeadingZero_ofNat (n : Nat) :
    (ofNat n).chars = ['0'] ∨ (ofNat n).chars.head? ≠ some '0' := by
  rcases toDigits_cases n with rfl | ⟨c, cs, h, -, hne⟩
  · exact .inl rfl
  · refine .inr fun hhead => hne ?_
    change (Nat.toDigits 10 n).head? = some '0' at hhead
    rw [h] at hhead
    exact Option.some.inj hhead

def Exponent.ofInt (n : Int) : Exponent :=
  ⟨'e', if n < 0 then .minus else .none, .ofNat n.natAbs, .inl rfl⟩

theorem Exponent.value_ofInt (n : Int) : (ofInt n).value = n := by
  rw [value, ofInt, Digits.value_ofNat]
  by_cases hn : n < 0
  · rw [if_pos hn, if_pos rfl]
    omega
  · rw [if_neg hn, if_neg fun h => nomatch h]
    omega

theorem Exponent.text_ofInt (n : Int) : (ofInt n).text = 'e' :: Literal.intText n := by
  rw [text, ofInt, Literal.intText]
  by_cases hn : n < 0
  · rw [if_pos hn, if_pos hn]
    rfl
  · rw [if_neg hn, if_neg hn]
    rfl

/-- Literals are written as numerals and are what is read of those. -/
theorem Literal.exists_numeral {l : Literal} (hl : l.WellFormed) :
    ∃ t : Numeral, t.text = l.text ∧ t.literal = l := by
  obtain ⟨negative, whole, fraction, exponent⟩ := l
  obtain ⟨fraction?, htext, hdigits⟩ : ∃ fraction? : Option Digits,
      fractionText fraction? = (if fraction.isEmpty then [] else '.' :: fraction) ∧
        fractionDigits fraction? = fraction := by
    cases fraction with
    | nil => exact ⟨none, rfl, rfl⟩
    | cons c cs => exact ⟨some ⟨c :: cs, List.cons_ne_nil c cs, hl⟩, rfl, rfl⟩
  refine ⟨⟨negative, .ofNat whole, fraction?, exponent.map .ofInt,
    Digits.noLeadingZero_ofNat whole⟩, ?_, ?_⟩
  · cases exponent with
    | none => simp [Numeral.text, Literal.text, htext, exponentText, signText, Digits.ofNat]
    | some e =>
      simp [Numeral.text, Literal.text, htext, exponentText, signText, Digits.ofNat,
        Exponent.text_ofInt]
  · cases exponent <;>
      simp [Numeral.literal, hdigits, Digits.value_ofNat, Exponent.value_ofInt]

theorem Numeral.wellFormed_literal (t : Numeral) : t.literal.WellFormed := by
  intro c hc
  cases hf : t.fraction with
  | none =>
    rw [literal, hf] at hc
    cases hc
  | some d =>
    rw [literal, hf] at hc
    exact d.isDigit c hc

/-! Numerals that stand for integers. -/

/-- A nonzero first digit makes a nonzero number. -/
theorem Digits.pos_of_head_ne {d : Digits} (h : d.chars.head? ≠ some '0') : 0 < d.value := by
  obtain ⟨c, cs, hchars, hc⟩ := d.cons
  rw [hchars] at h
  have hne : c.toNat ≠ '0'.toNat := fun heq => h (congrArg some (Char.toNat_inj.1 heq))
  have hle : '0'.toNat ≤ c.toNat := (Char.isDigit_iff_toNat.1 hc).1
  have hpow : 0 < 10 ^ cs.length := Nat.pow_pos (by decide)
  rw [value, hchars, Nat.ofDigitChars_cons, Nat.ofDigitChars_eq_ofDigitChars_zero]
  have hfirst : 0 < 10 ^ cs.length * (10 * 0 + (c.toNat - '0'.toNat)) :=
    Nat.mul_pos hpow (by omega)
  omega

namespace Numeral

theorem whole_eq_zero_iff (t : Numeral) : t.whole.value = 0 ↔ t.whole.chars = ['0'] := by
  constructor
  · intro hvalue
    rcases t.noLeadingZero with hzero | hhead
    · exact hzero
    · have hpos := Digits.pos_of_head_ne hhead
      omega
  · intro hchars
    rw [Digits.value, hchars]
    rfl

theorem fractionDigits_eq_nil_iff {fraction : Option Digits} :
    fractionDigits fraction = [] ↔ fraction = none := by
  cases fraction with
  | none => exact ⟨fun _ => rfl, fun _ => rfl⟩
  | some d => exact ⟨fun h => absurd h d.ne_nil, fun h => nomatch h⟩

/-- The literal is that of an integer only if the numeral is plain. -/
theorem literal_eq_ofInt_iff (t : Numeral) (n : Int) :
    t.literal = .ofInt n ↔ t.IsPlain ∧ t.integer = n := by
  rw [literal, Literal.ofInt, Literal.mk.injEq, fractionDigits_eq_nil_iff, Option.map_eq_none_iff,
    IsPlain, ← whole_eq_zero_iff, integer]
  constructor
  · rintro ⟨hnegative, hwhole, hfraction, hexponent⟩
    by_cases hn : n < 0
    · have hminus : t.negative = true := hnegative.trans (decide_eq_true hn)
      rw [if_pos hminus]
      exact ⟨⟨hfraction, hexponent, by omega⟩, by omega⟩
    · have hplus : t.negative = false := hnegative.trans (decide_eq_false hn)
      rw [hplus]
      exact ⟨⟨hfraction, hexponent, fun h => nomatch h.1⟩, by simp; omega⟩
  · rintro ⟨⟨hfraction, hexponent, hzero⟩, rfl⟩
    cases hn : t.negative with
    | true =>
      have hpos : t.whole.value ≠ 0 := fun h => hzero ⟨hn, h⟩
      exact ⟨(decide_eq_true (by simp; omega)).symm, by simp, hfraction, hexponent⟩
    | false => exact ⟨(decide_eq_false (by simp)).symm, by simp, hfraction, hexponent⟩

end Numeral

end MethodIR.Json
