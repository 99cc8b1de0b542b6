import Mathlib.Data.List.Perm.Basic
import MethodIR.Proofs.Json.Adjacent

/-!
Values that differ in their numbers only. Whatever is spelled as something keeps its form when other
literals, of any kind and length, are put in place of its numbers.
-/
namespace MethodIR.Json

variable {α : Type} {extra direct whole : Json → Prop} {spelling : α → Json → Prop}
  {fields : List FieldSpelling} {tag content name : String} {j : Json}

/-- The second value is the first with any literals in place of its numbers. -/
inductive Renumbered : Json → Json → Prop where
  | null : Renumbered .null .null
  | boolean (b : Bool) : Renumbered (.boolean b) (.boolean b)
  | number (l l' : Literal) : Renumbered (.number l) (.number l')
  | text (s : String) : Renumbered (.text s) (.text s)
  | list {js js' : List Json} (h : List.Forall₂ Renumbered js js') :
    Renumbered (.list js) (.list js')
  | object {ms ms' : List (String × Json)} (names : ms.map Prod.fst = ms'.map Prod.fst)
      (h : List.Forall₂ Renumbered (ms.map Prod.snd) (ms'.map Prod.snd)) :
    Renumbered (.object ms) (.object ms')

def RenumberedMember (m m' : String × Json) : Prop := m.1 = m'.1 ∧ Renumbered m.2 m'.2

theorem forall₂_renumberedMember {ms ms' : List (String × Json)}
    (names : ms.map Prod.fst = ms'.map Prod.fst)
    (h : List.Forall₂ Renumbered (ms.map Prod.snd) (ms'.map Prod.snd)) :
    List.Forall₂ RenumberedMember ms ms' := by
  induction ms generalizing ms' with
  | nil =>
    cases ms' with
    | nil => exact .nil
    | cons m' ms' => cases names
  | cons m ms ih =>
    cases ms' with
    | nil => cases names
    | cons m' ms' =>
      rw [List.map_cons, List.map_cons, List.cons.injEq] at names
      rw [List.map_cons, List.map_cons, List.forall₂_cons] at h
      exact .cons ⟨names.1, h.1⟩ (ih names.2 h.2)

/-- Has the form of what is spelled so. -/
def UpToNumbers (spelled : Json → Prop) (j : Json) : Prop := ∃ j₀, spelled j₀ ∧ Renumbered j₀ j

def FieldSpelling.upToNumbers (f : FieldSpelling) : FieldSpelling :=
  { f with value := UpToNumbers f.value }

@[simp] theorem FieldSpelling.name_upToNumbers (f : FieldSpelling) :
    f.upToNumbers.name = f.name := rfl

/-- Nothing is asked of a value. -/
def Anything (_ : Json) : Prop := True

/-! Parts of records. -/

theorem Kept.upToNumbers {ms ms' : List (String × Json)} (h : Kept fields ms)
    (hms : List.Forall₂ RenumberedMember ms ms') :
    Kept (fields.map FieldSpelling.upToNumbers) ms' := by
  induction h generalizing ms' with
  | nil =>
    cases hms
    exact .nil
  | @keep f fields j ms hj hs ih =>
    obtain ⟨⟨key, j'⟩, ms', ⟨hkey, hj'⟩, hms', rfl⟩ := List.forall₂_cons_left_iff.1 hms
    cases hkey
    exact .keep ⟨j, hj, hj'⟩ (ih hms')
  | leave homit hs ih => exact .leave homit (ih hms)

theorem forall₂_append_left {β : Type} {r : α → β → Prop} {as as' : List α} {bs : List β}
    (h : List.Forall₂ r (as ++ as') bs) :
    ∃ front back, bs = front ++ back ∧ List.Forall₂ r as front ∧ List.Forall₂ r as' back := by
  induction as generalizing bs with
  | nil => exact ⟨[], bs, rfl, .nil, h⟩
  | cons a as ih =>
    obtain ⟨b, bs, hb, hbs, rfl⟩ := List.forall₂_cons_left_iff.1 h
    obtain ⟨front, back, rfl, hfront, hback⟩ := ih hbs
    exact ⟨b :: front, back, rfl, .cons hb hfront, hback⟩

theorem exists_renumbered {ms ms' : List (String × Json)}
    (h : List.Forall₂ RenumberedMember ms ms') {m' : String × Json} (hm : m' ∈ ms') :
    ∃ m ∈ ms, m.1 = m'.1 := by
  induction h with
  | nil => cases hm
  | @cons m m' ms ms' hm' _ ih =>
    rcases List.mem_cons.1 hm with rfl | hm
    · exact ⟨m, List.mem_cons_self, hm'.1⟩
    · obtain ⟨m, hmem, hname⟩ := ih hm
      exact ⟨m, List.mem_cons_of_mem _ hmem, hname⟩

theorem SpelledMembers.upToNumbers {ms ms' : List (String × Json)}
    (h : SpelledMembers extra fields ms) (hms : List.Forall₂ RenumberedMember ms ms') :
    SpelledMembers Anything (fields.map FieldSpelling.upToNumbers) ms' := by
  obtain ⟨kept, others, hkept, hperm, hothers⟩ := h
  obtain ⟨all, hall, hperm'⟩ := List.perm_comp_forall₂ hperm.symm hms
  obtain ⟨kept', others', rfl, hkept', hothers'⟩ := forall₂_append_left hall
  refine ⟨kept', others', hkept.upToNumbers hkept', hperm'.symm, fun m' hm' => ⟨?_, trivial⟩⟩
  obtain ⟨m, hm, hname⟩ := exists_renumbered hothers' hm'
  rw [← hname]
  exact List.forall_mem_map.2 (hothers m hm).1

theorem SpelledItems.upToNumbers {js js' : List Json} (h : SpelledItems fields js)
    (hjs : List.Forall₂ Renumbered js js') :
    SpelledItems (fields.map FieldSpelling.upToNumbers) js' := by
  induction h generalizing js' with
  | cut hcut =>
    cases hjs
    exact .cut (List.forall_mem_map.2 hcut)
  | @item f fields j js hj hs ih =>
    obtain ⟨j', js', hj', hjs', rfl⟩ := List.forall₂_cons_left_iff.1 hjs
    exact .item ⟨j, hj, hj'⟩ (ih hjs')

namespace UpToNumbers

theorem text {s : String} (h : UpToNumbers (Written .text s) j) : j = .text s := by
  obtain ⟨j₀, rfl, hj⟩ := h
  cases hj
  rfl

theorem object (h : UpToNumbers (SpelledObject extra fields) j) :
    SpelledObject Anything (fields.map FieldSpelling.upToNumbers) j := by
  obtain ⟨j₀, ⟨ms, rfl, hms⟩, hj⟩ := h
  cases hj with
  | @object ms ms' names hvalues =>
    exact ⟨ms', rfl, hms.upToNumbers (forall₂_renumberedMember names hvalues)⟩

theorem record (h : UpToNumbers (SpelledRecord extra fields) j) :
    SpelledRecord Anything (fields.map FieldSpelling.upToNumbers) j := by
  obtain ⟨j₀, hobject | ⟨js, rfl, hjs⟩, hj⟩ := h
  · exact .inl (object ⟨j₀, hobject, hj⟩)
  · cases hj with
    | @list js js' hjs' => exact .inr ⟨js', rfl, hjs.upToNumbers hjs'⟩

theorem option {a? : Option α} (h : UpToNumbers (SpelledOption spelling a?) j) :
    j = .null ∨ ∃ a, UpToNumbers (spelling a) j := by
  cases a? with
  | none =>
    obtain ⟨j₀, rfl, hj⟩ := h
    cases hj
    exact .inl rfl
  | some a => exact .inr ⟨a, h⟩

theorem list {as : List α} (h : UpToNumbers (SpelledList spelling as) j) :
    ∃ js, j = .list js ∧ ∀ j ∈ js, ∃ a, UpToNumbers (spelling a) j := by
  obtain ⟨j₀, ⟨js, rfl, hjs⟩, hj⟩ := h
  cases hj with
  | @list js js' hitems =>
    refine ⟨js', rfl, ?_⟩
    induction hjs generalizing js' with
    | nil =>
      cases hitems
      exact fun j hj => nomatch hj
    | @cons a j as js hj _ ih =>
      obtain ⟨j', js', hj', hrest, rfl⟩ := List.forall₂_cons_left_iff.1 hitems
      exact List.forall_mem_cons.2 ⟨⟨a, j, hj, hj'⟩, ih hrest⟩

end UpToNumbers

/-! A tag beside its content. -/

theorem isOther_of_renumbered {ms ms' : List (String × Json)}
    (hms : List.Forall₂ RenumberedMember ms ms') (h : ∀ m ∈ ms, IsOther extra tag content m) :
    ∀ m' ∈ ms', IsOther Anything tag content m' := by
  intro m' hm'
  obtain ⟨m, hm, hname⟩ := exists_renumbered hms hm'
  obtain ⟨htag, hcontent, -⟩ := h m hm
  rw [IsOther, ← hname]
  exact ⟨htag, hcontent, trivial⟩

/-- Two members among others are renumbered as such. -/
theorem forall₂_two {before between after ms' : List (String × Json)} {x y : String × Json}
    (h : List.Forall₂ RenumberedMember (before ++ x :: (between ++ y :: after)) ms') :
    ∃ before' x' between' y' after', ms' = before' ++ x' :: (between' ++ y' :: after') ∧
      RenumberedMember x x' ∧ RenumberedMember y y' ∧
      List.Forall₂ RenumberedMember (before ++ (between ++ after))
        (before' ++ (between' ++ after')) := by
  obtain ⟨before', fromFirst, rfl, hbefore, hfirst⟩ := forall₂_append_left h
  obtain ⟨x', rest, hx, hrest, rfl⟩ := List.forall₂_cons_left_iff.1 hfirst
  obtain ⟨between', fromSecond, rfl, hbetween, hsecond⟩ := forall₂_append_left hrest
  obtain ⟨y', after', hy, hafter, rfl⟩ := List.forall₂_cons_left_iff.1 hsecond
  exact ⟨before', x', between', y', after', rfl, hx, hy,
    List.rel_append hbefore (List.rel_append hbetween hafter)⟩

theorem UpToNumbers.adjacent
    (h : UpToNumbers (SpelledAdjacent extra tag content name direct whole) j) :
    SpelledAdjacent Anything tag content name (UpToNumbers direct) (UpToNumbers whole) j := by
  obtain ⟨j₀, hj₀, hj⟩ := h
  cases hj₀ with
  | @tagFirst before between after c hc hothers =>
    cases hj with
    | @object ms ms' names hvalues =>
      obtain ⟨before', ⟨key, t⟩, between', ⟨key', c'⟩, after', rfl, ⟨hkey, ht⟩, ⟨hkey', hc'⟩,
          hrest⟩ := forall₂_two (forall₂_renumberedMember names hvalues)
      cases hkey
      cases hkey'
      cases ht
      exact .tagFirst ⟨c, hc, hc'⟩ (isOther_of_renumbered hrest hothers)
  | @contentFirst before between after c hc hothers =>
    cases hj with
    | @object ms ms' names hvalues =>
      obtain ⟨before', ⟨key, c'⟩, between', ⟨key', t⟩, after', rfl, ⟨hkey, hc'⟩, ⟨hkey', ht⟩,
          hrest⟩ := forall₂_two (forall₂_renumberedMember names hvalues)
      cases hkey
      cases hkey'
      cases ht
      exact .contentFirst ⟨c, hc, hc'⟩ (isOther_of_renumbered hrest hothers)
  | @list c hc =>
    cases hj with
    | @list js js' hjs =>
      obtain ⟨t, rest, ht, hrest, rfl⟩ := List.forall₂_cons_left_iff.1 hjs
      obtain ⟨c', rest, hc', hnil, rfl⟩ := List.forall₂_cons_left_iff.1 hrest
      cases ht
      cases hnil
      exact .list ⟨c, hc, hc'⟩

theorem UpToNumbers.bare (h : UpToNumbers (SpelledBare extra tag content name) j) :
    SpelledBare Anything tag content name j := by
  obtain ⟨j₀, hj₀, hj⟩ := h
  cases hj₀ with
  | @alone before after hothers =>
    cases hj with
    | @object ms ms' names hvalues =>
      obtain ⟨before', rest, rfl, hbefore, hrest⟩ :=
        forall₂_append_left (forall₂_renumberedMember names hvalues)
      obtain ⟨⟨key, t⟩, after', ⟨hkey, ht⟩, hafter, rfl⟩ := List.forall₂_cons_left_iff.1 hrest
      cases hkey
      cases ht
      exact .alone (isOther_of_renumbered (List.rel_append hbefore hafter) hothers)
  | null h =>
    have hnull : ∀ c, UpToNumbers (· = .null) c → c = .null := by
      rintro c ⟨c₀, rfl, hc⟩
      cases hc
      rfl
    exact .null ((UpToNumbers.adjacent ⟨j₀, h, hj⟩).mono hnull hnull)

end MethodIR.Json
