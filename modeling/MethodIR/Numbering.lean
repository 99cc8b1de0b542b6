/-!
Texts numbered from zero in the order in which they are first seen. Numbers and texts determine each
other, and a number once given never changes.
-/
namespace MethodIR

structure Numbering where
  texts : List String
  distinct : texts.Nodup
deriving DecidableEq

namespace Numbering

def empty : Numbering := ⟨[], .nil⟩

def size (n : Numbering) : Nat := n.texts.length

/-- Gives `s` the next number unless it has one. -/
def insert (n : Numbering) (s : String) : Numbering :=
  if h : s ∈ n.texts then n
  else ⟨n.texts ++ [s], by
    refine List.nodup_append.2 ⟨n.distinct, by simp, ?_⟩
    intro a ha b hb hab
    simp only [List.mem_singleton] at hb
    exact h (hb ▸ hab ▸ ha)⟩

def number? (n : Numbering) (s : String) : Option Nat := n.texts.idxOf? s

def text? (n : Numbering) (i : Nat) : Option String := n.texts[i]?

theorem texts_insert (n : Numbering) (s : String) :
    (n.insert s).texts = if s ∈ n.texts then n.texts else n.texts ++ [s] := by
  simp only [insert]
  split <;> rfl

theorem number?_eq_some_iff (n : Numbering) (s : String) (i : Nat) :
    n.number? s = some i ↔ n.text? i = some s := by
  constructor
  · intro h
    obtain ⟨hi, hs, -⟩ := List.findIdx?_eq_some_iff_getElem.1 h
    exact List.getElem?_eq_some_iff.2 ⟨hi, by simpa using hs⟩
  · intro h
    obtain ⟨hi, rfl⟩ := List.getElem?_eq_some_iff.1 h
    refine List.findIdx?_eq_some_iff_getElem.2 ⟨hi, by simp, ?_⟩
    intro j hj
    have hne := List.pairwise_iff_getElem.1 n.distinct j i (by omega) hi hj
    simpa using hne

theorem number?_eq_none_iff (n : Numbering) (s : String) :
    n.number? s = none ↔ s ∉ n.texts := by
  simp only [number?, List.idxOf?, List.findIdx?_eq_none_iff, beq_eq_false_iff_ne]
  exact ⟨fun h hs => h s hs rfl, fun h x hx e => h (e ▸ hx)⟩

theorem text?_eq_none_iff (n : Numbering) (i : Nat) : n.text? i = none ↔ n.size ≤ i := by
  simp [text?, size]

/-- Texts keep their numbers. -/
theorem text?_insert_of_some {n : Numbering} {i : Nat} {t : String} (s : String)
    (h : n.text? i = some t) : (n.insert s).text? i = some t := by
  simp only [text?, texts_insert]
  split
  · exact h
  · exact List.getElem?_append_left (List.getElem?_eq_some_iff.1 h).1 ▸ h

end Numbering

end MethodIR
