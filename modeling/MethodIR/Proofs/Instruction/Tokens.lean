import MethodIR.Proofs.Text.Quoting

/-!
The tokens of a text: words, quoted texts, and single characters between them. A text has one
sequence of tokens at most, because a word goes on as long as it can and a quoted text ends at its
closing quote.
-/
namespace MethodIR

open Json (Stops)

inductive Token where
  | sign (c : Char)
  | word (w : String)
  | quote (s : String)
deriving DecidableEq

namespace Token

variable {t : Token} {ts us : List Token} {c : Char} {w : String}

def isWordChar (c : Char) : Bool := c.isAlphanum || c == '_' || c == '%' || c == '-'

def text : Token → List Char
  | .sign c => [c]
  | .word w => w.toList
  | .quote s => Text.quotedChars s.toList

def textOf (ts : List Token) : List Char := ts.flatMap text

def IsWord (w : String) : Prop := w ≠ "" ∧ ∀ c ∈ w.toList, isWordChar c

/-- The tokens can be told apart in their text: signs are no part of words or quoted texts, and a word
is followed by something else. -/
def Apart : List Token → Prop
  | [] => True
  | .sign c :: ts => isWordChar c = false ∧ c ≠ '"' ∧ Apart ts
  | .word w :: ts => IsWord w ∧ Stops isWordChar (textOf ts) ∧ Apart ts
  | .quote _ :: ts => Apart ts

theorem textOf_nil : textOf [] = [] := rfl

theorem textOf_cons (t : Token) (ts : List Token) : textOf (t :: ts) = t.text ++ textOf ts :=
  List.flatMap_cons

theorem textOf_append (ts us : List Token) : textOf (ts ++ us) = textOf ts ++ textOf us :=
  List.flatMap_append

theorem IsWord.cons (h : IsWord w) : ∃ c cs, w.toList = c :: cs ∧ isWordChar c := by
  obtain ⟨hne, hall⟩ := h
  cases hw : w.toList with
  | nil => exact absurd (String.toList_eq_nil_iff.1 hw) hne
  | cons c cs => exact ⟨c, cs, rfl, hall c (hw ▸ List.mem_cons_self)⟩

/-- The first character of a token says what kind of token it is. -/
theorem Apart.head (h : Apart (t :: ts)) : ∃ c cs, textOf (t :: ts) = c :: cs ∧
    (t = .sign c ∧ isWordChar c = false ∧ c ≠ '"' ∨
      (∃ w, t = .word w) ∧ isWordChar c = true ∨ (∃ s, t = .quote s) ∧ c = '"') := by
  cases t with
  | sign c => exact ⟨c, textOf ts, rfl, .inl ⟨rfl, h.1, h.2.1⟩⟩
  | word w =>
    obtain ⟨c, cs, hw, hc⟩ := h.1.cons
    refine ⟨c, cs ++ textOf ts, ?_, .inr (.inl ⟨⟨w, rfl⟩, hc⟩)⟩
    rw [textOf_cons, text, hw, List.cons_append]
  | quote s => exact ⟨'"', _, rfl, .inr (.inr ⟨⟨s, rfl⟩, rfl⟩)⟩

theorem Apart.tail (h : Apart (t :: ts)) : Apart ts := by
  cases t with
  | sign c => exact h.2.2
  | word w => exact h.2.2
  | quote s => exact h

theorem isWordChar_quote : isWordChar '"' = false := by decide

/-- The first token of a text and what follows it are determined. -/
theorem Apart.cons_inj {u : Token} (h : Apart (t :: ts)) (h' : Apart (u :: us))
    (htext : textOf (t :: ts) = textOf (u :: us)) : t = u ∧ textOf ts = textOf us := by
  obtain ⟨c, cs, hc, hkind⟩ := h.head
  obtain ⟨d, ds, hd, hkind'⟩ := h'.head
  rw [hc, hd] at htext
  obtain ⟨rfl, rfl⟩ := List.cons.inj htext
  have hsame := hc.trans hd.symm
  rcases hkind with ⟨rfl, hsign, hquote⟩ | ⟨⟨w, rfl⟩, hword⟩ | ⟨⟨s, rfl⟩, rfl⟩
  · rcases hkind' with ⟨rfl, -, -⟩ | ⟨-, hword⟩ | ⟨-, rfl⟩
    · exact ⟨rfl, (List.cons.inj hsame).2⟩
    · rw [hsign] at hword
      cases hword
    · exact absurd rfl hquote
  · rcases hkind' with ⟨-, hsign, -⟩ | ⟨⟨w', rfl⟩, -⟩ | ⟨-, rfl⟩
    · rw [hsign] at hword
      cases hword
    · obtain ⟨hw, hrest⟩ := h.2.1.append_inj h'.2.1 h.1.2 h'.1.2 hsame
      exact ⟨congrArg word (String.toList_inj.1 hw), hrest⟩
    · rw [isWordChar_quote] at hword
      cases hword
  · rcases hkind' with ⟨-, -, hquote⟩ | ⟨-, hword⟩ | ⟨⟨s', rfl⟩, -⟩
    · exact absurd rfl hquote
    · rw [isWordChar_quote] at hword
      cases hword
    · obtain ⟨hs, hrest⟩ := Text.quotedChars_append_inj hsame
      exact ⟨congrArg quote (String.toList_inj.1 hs), hrest⟩

theorem Apart.inj (h : Apart ts) (h' : Apart us) (htext : textOf ts = textOf us) : ts = us := by
  induction ts generalizing us with
  | nil =>
    cases us with
    | nil => rfl
    | cons u us =>
      obtain ⟨c, cs, hc, -⟩ := h'.head
      rw [hc] at htext
      cases htext
  | cons t ts ih =>
    cases us with
    | nil =>
      obtain ⟨c, cs, hc, -⟩ := h.head
      rw [hc] at htext
      cases htext
    | cons u us =>
      obtain ⟨rfl, hrest⟩ := h.cons_inj h' htext
      rw [ih h.tail h'.tail hrest]

end Token

end MethodIR
