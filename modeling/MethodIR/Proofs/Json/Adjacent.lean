import MethodIR.Proofs.Json.Acceptance

/-!
Spellings of a value whose tag stands beside its content: the two in either order among other
members, or as the list of the two. The content is read as it comes where the tag stands before it,
and whole where the tag is still to come; both ways lead to the same value.
-/
namespace MethodIR.Json

open Document (ofJson ofMembers)

variable {α : Type} {extra direct whole : Json → Prop} {tag content name : String}
  {before between after others : List (String × Json)} {c j : Json}

/-- A member that is neither the tag nor the content. -/
def IsOther (extra : Json → Prop) (tag content : String) (m : String × Json) : Prop :=
  m.1 ≠ tag ∧ m.1 ≠ content ∧ extra m.2

/-- What may be written for a form with content: `direct` holds of the content that follows its tag,
and `whole` of the content before it. -/
inductive SpelledAdjacent (extra : Json → Prop) (tag content name : String)
    (direct whole : Json → Prop) : Json → Prop where
  | tagFirst {before between after : List (String × Json)} {c : Json} (h : direct c)
      (hothers : ∀ m ∈ before ++ (between ++ after), IsOther extra tag content m) :
    SpelledAdjacent extra tag content name direct whole
      (.object (before ++ (tag, .text name) :: (between ++ (content, c) :: after)))
  | contentFirst {before between after : List (String × Json)} {c : Json} (h : whole c)
      (hothers : ∀ m ∈ before ++ (between ++ after), IsOther extra tag content m) :
    SpelledAdjacent extra tag content name direct whole
      (.object (before ++ (content, c) :: (between ++ (tag, .text name) :: after)))
  | list {c : Json} (h : direct c) :
    SpelledAdjacent extra tag content name direct whole (.list [.text name, c])

/-- What may be written for a form without content, a null included. -/
inductive SpelledBare (extra : Json → Prop) (tag content name : String) : Json → Prop where
  | alone {before after : List (String × Json)}
      (hothers : ∀ m ∈ before ++ after, IsOther extra tag content m) :
    SpelledBare extra tag content name (.object (before ++ (tag, .text name) :: after))
  | null {j : Json} (h : SpelledAdjacent extra tag content name (· = .null) (· = .null) j) :
    SpelledBare extra tag content name j

/-- Two members among others, and the others. -/
theorem mem_two {m x y : String × Json} : m ∈ before ++ x :: (between ++ y :: after) ↔
    m = x ∨ m = y ∨ m ∈ before ++ (between ++ after) := by
  simp only [List.mem_append, List.mem_cons]
  grind

theorem SpelledAdjacent.numbers {p : Literal → Prop}
    (h : SpelledAdjacent extra tag content name direct whole j)
    (hextra : ∀ j, extra j → j.Numbers p) (hdirect : ∀ c, direct c → c.Numbers p)
    (hwhole : ∀ c, whole c → c.Numbers p) : j.Numbers p := by
  cases h with
  | tagFirst h hothers =>
    refine membersNumbers_iff.2 fun m hm => ?_
    rcases mem_two.1 hm with rfl | rfl | hm
    · trivial
    · exact hdirect _ h
    · exact hextra _ (hothers m hm).2.2
  | contentFirst h hothers =>
    refine membersNumbers_iff.2 fun m hm => ?_
    rcases mem_two.1 hm with rfl | rfl | hm
    · exact hwhole _ h
    · trivial
    · exact hextra _ (hothers m hm).2.2
  | list h => exact ⟨trivial, hdirect _ h, trivial⟩

theorem SpelledBare.numbers {p : Literal → Prop} (h : SpelledBare extra tag content name j)
    (hextra : ∀ j, extra j → j.Numbers p) : j.Numbers p := by
  cases h with
  | alone hothers =>
    refine membersNumbers_iff.2 fun m hm => ?_
    rcases List.mem_cons.1 (List.perm_middle.mem_iff.1 hm) with rfl | hm
    · trivial
    · exact hextra _ (hothers m hm).2.2
  | null h =>
    refine h.numbers hextra ?_ ?_
    · rintro _ rfl
      trivial
    · rintro _ rfl
      trivial

theorem SpelledAdjacent.mono {direct' whole' : Json → Prop}
    (h : SpelledAdjacent extra tag content name direct whole j) (hdirect : ∀ c, direct c → direct' c)
    (hwhole : ∀ c, whole c → whole' c) : SpelledAdjacent extra tag content name direct' whole' j := by
  cases h with
  | tagFirst h hothers => exact .tagFirst (hdirect _ h) hothers
  | contentFirst h hothers => exact .contentFirst (hwhole _ h) hothers
  | list h => exact .list (hdirect _ h)

/-! The parts among other members. -/

theorem nextPart_others (hothers : ∀ m ∈ others, m.1 ≠ tag ∧ m.1 ≠ content)
    (ms : List (String × Json)) :
    nextPart tag content .closed (ofMembers (others ++ ms)) =
      nextPart tag content .closed (ofMembers ms) := by
  induction others with
  | nil => rfl
  | cons m others ih =>
    obtain ⟨htag, hcontent⟩ := hothers m List.mem_cons_self
    have hskip : nextPart tag content .closed (ofMembers (m :: (others ++ ms))) =
        (ofFault (ofJson m.2).skip >>= fun _ =>
          nextPart tag content .closed (ofMembers (others ++ ms))) :=
      (if_neg htag).trans (if_neg hcontent)
    rw [List.cons_append, hskip, Document.skip_ofJson]
    exact ih fun m hm => hothers m (List.mem_cons_of_mem _ hm)

theorem nextPart_done (hothers : ∀ m ∈ others, m.1 ≠ tag ∧ m.1 ≠ content) :
    nextPart tag content .closed (ofMembers others) = .ok none := by
  have h := nextPart_others hothers []
  rwa [List.append_nil] at h

theorem noMoreParts_others (hothers : ∀ m ∈ others, m.1 ≠ tag ∧ m.1 ≠ content) :
    noMoreParts tag content .closed (ofMembers others) = .ok () := by
  rw [noMoreParts, nextPart_done hothers]
  rfl

/-- The names of members that are others. -/
theorem others_names (hothers : ∀ m ∈ before ++ (between ++ after), IsOther extra tag content m) :
    (∀ m ∈ before, m.1 ≠ tag ∧ m.1 ≠ content) ∧ (∀ m ∈ between, m.1 ≠ tag ∧ m.1 ≠ content) ∧
      ∀ m ∈ after, m.1 ≠ tag ∧ m.1 ≠ content := by
  have hnames : ∀ m ∈ before ++ (between ++ after), m.1 ≠ tag ∧ m.1 ≠ content :=
    fun m hm => ⟨(hothers m hm).1, (hothers m hm).2.1⟩
  simpa only [List.forall_mem_append] using hnames

namespace Decoder

variable {alternatives : List (String × Alternative α)} {form : Alternative α} {a : α}
  {stage : Stage} {inner : Nat}

theorem adjacent_tagFirst (type : String) (hne : content ≠ tag)
    (hform : alternatives.lookup name = some form)
    (hothers : ∀ m ∈ before ++ (between ++ after), IsOther extra tag content m) :
    adjacent type tag content alternatives stage (inner + 1) (.ofJson (.object
      (before ++ (tag, .text name) :: (between ++ (content, c) :: after)))) =
        form.decode stage inner (.ofJson c) := by
  obtain ⟨hbefore, hbetween, hafter⟩ := others_names hothers
  change (nextPart tag content .closed (ofMembers (before ++ (tag, .text name) ::
    (between ++ (content, c) :: after))) >>= _) = _
  rw [nextPart_others hbefore, ofMembers, nextPart_tag]
  change (choose alternatives name >>= _) = _
  rw [choose_of_lookup hform]
  change (nextPart tag content .closed (ofMembers (between ++ (content, c) :: after)) >>= _) = _
  rw [nextPart_others hbetween, ofMembers, nextPart_content hne]
  change (form.decode stage inner (.ofJson c) >>= fun a =>
    noMoreParts tag content .closed (ofMembers after) >>= fun _ => pure a) = _
  rw [noMoreParts_others hafter]
  exact bind_pure _

theorem adjacent_contentFirst (type : String) (hne : content ≠ tag)
    (hform : alternatives.lookup name = some form)
    (hothers : ∀ m ∈ before ++ (between ++ after), IsOther extra tag content m) :
    adjacent type tag content alternatives stage (inner + 1) (.ofJson (.object
      (before ++ (content, c) :: (between ++ (tag, .text name) :: after)))) =
        ((Document.ofJson c).readWhole inner >>= form.decode .whole inner) := by
  obtain ⟨hbefore, hbetween, hafter⟩ := others_names hothers
  change (nextPart tag content .closed (ofMembers (before ++ (content, c) ::
    (between ++ (tag, .text name) :: after))) >>= _) = _
  rw [nextPart_others hbefore, ofMembers, nextPart_content hne]
  change ((Document.ofJson c).readWhole inner >>= _) = _
  refine congrArg _ (funext fun d => ?_)
  rw [nextPart_others hbetween, ofMembers, nextPart_tag]
  change (choose alternatives name >>= _) = _
  rw [choose_of_lookup hform]
  change (form.decode .whole inner d >>= fun a =>
    noMoreParts tag content .closed (ofMembers after) >>= fun _ => pure a) = _
  rw [noMoreParts_others hafter]
  exact bind_pure _

theorem adjacent_list (type : String) (hform : alternatives.lookup name = some form) :
    adjacent type tag content alternatives stage (inner + 1) (.ofJson (.list [.text name, c])) =
      form.decode stage inner (.ofJson c) := by
  have htag : tagName alternatives stage inner (.text name) = .ok form := choose_of_lookup hform
  change (tagName alternatives stage inner (.text name) >>= _) = _
  rw [htag]
  change (form.decode stage inner (.ofJson c) >>= fun a =>
    ListEnd.closed.checkLast stage 2 [] >>= fun _ => pure a) = _
  cases stage <;> exact bind_pure _

theorem adjacent_alone (type : String) (hform : alternatives.lookup name = some form)
    (hothers : ∀ m ∈ before ++ after, IsOther extra tag content m) :
    adjacent type tag content alternatives stage (inner + 1) (.ofJson (.object
      (before ++ (tag, .text name) :: after))) =
        match form.withoutContent with
        | none => refuse (.missingField content)
        | some a => pure a := by
  have hnames : ∀ m ∈ before ++ after, m.1 ≠ tag ∧ m.1 ≠ content :=
    fun m hm => ⟨(hothers m hm).1, (hothers m hm).2.1⟩
  obtain ⟨hbefore, hafter⟩ := List.forall_mem_append.1 hnames
  change (nextPart tag content .closed (ofMembers (before ++ (tag, .text name) :: after)) >>=
    _) = _
  rw [nextPart_others hbefore, ofMembers, nextPart_tag]
  change (choose alternatives name >>= _) = _
  rw [choose_of_lookup hform]
  change (nextPart tag content .closed (ofMembers after) >>= _) = _
  rw [nextPart_done hafter]
  rfl

/-- A value is read from its tag and its content, in whatever order they come. -/
theorem adjacent_spelled (type : String) (hne : content ≠ tag)
    (hform : alternatives.lookup name = some form)
    (h : SpelledAdjacent extra tag content name direct whole j)
    (hdirect : ∀ c, direct c → c.depth ≤ inner → form.decode stage inner (.ofJson c) = .ok a)
    (hwhole : ∀ c, whole c → c.Readable ∧
      (c.depth ≤ inner → form.decode .whole inner (.ofJson c) = .ok a))
    (hdepth : j.depth ≤ inner + 1) :
    adjacent type tag content alternatives stage (inner + 1) (.ofJson j) = .ok a := by
  cases h with
  | @tagFirst before between after c h hothers =>
    have hc : c.depth ≤ inner :=
      membersDepth_le_iff.1 (Nat.le_of_succ_le_succ hdepth) (content, c) (mem_two.2 (.inr (.inl rfl)))
    rw [adjacent_tagFirst type hne hform hothers]
    exact hdirect c h hc
  | @contentFirst before between after c h hothers =>
    obtain ⟨hread, hdecode⟩ := hwhole c h
    have hc : c.depth ≤ inner :=
      membersDepth_le_iff.1 (Nat.le_of_succ_le_succ hdepth) (content, c) (mem_two.2 (.inl rfl))
    rw [adjacent_contentFirst type hne hform hothers, Document.readWhole_ofJson hread, limited,
      if_pos hc]
    exact hdecode hc
  | @list c h =>
    have hc : c.depth ≤ inner :=
      itemsDepth_le_iff.1 (Nat.le_of_succ_le_succ hdepth) c (by simp)
    rw [adjacent_list type hform]
    exact hdirect c h hc

/-- A form without content may have a null for it. -/
theorem adjacent_spelledBare (type : String) {wanted : String} (hne : content ≠ tag)
    (hform : alternatives.lookup name = some (.bare wanted a))
    (h : SpelledBare extra tag content name j) (hdepth : j.depth ≤ inner + 1) :
    adjacent type tag content alternatives stage (inner + 1) (.ofJson j) = .ok a := by
  cases h with
  | @alone before after hothers => exact adjacent_alone type hform hothers
  | null h =>
    refine adjacent_spelled type hne hform h ?_ ?_ hdepth
    · rintro _ rfl -
      rfl
    · rintro _ rfl
      exact ⟨trivial, fun _ => rfl⟩

end Decoder

/-! No value is spelled flat. -/

theorem SpelledAdjacent.depth_pos (h : SpelledAdjacent extra tag content name direct whole j) :
    0 < j.depth := by
  cases h <;> exact Nat.succ_pos _

theorem SpelledBare.depth_pos (h : SpelledBare extra tag content name j) : 0 < j.depth := by
  cases h with
  | alone => exact Nat.succ_pos _
  | null h => exact h.depth_pos

end MethodIR.Json
