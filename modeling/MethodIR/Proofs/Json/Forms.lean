import MethodIR.Proofs.Json.Records

/-!
Values of several forms: the form is found by its tag, which stands first, and a value that is
accepted has come from one of the forms.
-/
namespace MethodIR.Json

open Document (ofJson ofMembers)

variable {α σ ρ : Type} {stage : Stage} {levels : Nat} {a : α}

namespace Decoder

variable {alternatives : List (String × α)}

theorem choose_of_lookup {name : String} (h : alternatives.lookup name = some a) :
    choose alternatives name = .ok a := by
  rw [choose, h]

theorem mem_of_choose {name : String} (h : choose alternatives name = .ok a) :
    (name, a) ∈ alternatives := by
  unfold choose at h
  split at h
  · rename_i ha
    cases h
    obtain ⟨before, after, rfl, -⟩ := List.lookup_eq_some_iff.1 ha
    simp
  · cases h

theorem mem_of_tagName {d : Document} (h : tagName alternatives stage levels d = .ok a) :
    ∃ name, (name, a) ∈ alternatives := by
  unfold tagName at h
  split at h
  · exact ⟨_, mem_of_choose h⟩
  · split at h
    · split at h
      · cases h
      · split at h
        · rename_i ha
          cases h
          exact ⟨_, List.mem_of_getElem? ha⟩
        · cases h
    · cases h
  · cases h

theorem mem_of_name {d : Document} (h : name alternatives stage levels d = .ok a) :
    ∃ name, (name, a) ∈ alternatives := by
  unfold name at h
  split at h
  case h_1 => exact ⟨_, mem_of_choose h⟩
  case h_2 =>
    obtain ⟨inner, -, h⟩ := within_eq_ok_iff.1 h
    split at h
    · cases h
    · obtain ⟨key, -, h⟩ := bind_eq_ok_iff.1 h
      obtain ⟨a', ha, h⟩ := bind_eq_ok_iff.1 h
      dsimp only at h
      split at h
      · obtain ⟨-, -, h⟩ := bind_eq_ok_iff.1 h
        cases h
        exact ⟨_, mem_of_choose ha⟩
      · cases h
  case h_6 =>
    obtain ⟨key, -, h⟩ := bind_eq_ok_iff.1 h
    obtain ⟨a', ha, h⟩ := bind_eq_ok_iff.1 h
    split at h
    · cases h
      exact ⟨_, mem_of_choose ha⟩
    · cases h
      exact ⟨_, mem_of_choose ha⟩
    · cases h
  -- No other document names anything.
  all_goals cases h

end Decoder

/-! A tag among the fields. -/

namespace Variant

variable {tag : String} {variants : List (String × Variant α)}

/-- A value of this form has come from an object or from a list. -/
def Gives (v : Variant α) (levels : Nat) (a : α) : Prop :=
  (∃ members, v.ofObject levels members = .ok a) ∨ ∃ items, v.ofList levels items = .ok a

theorem Gives.record {wanted : String} {fields : Fields σ ρ} {make : ρ → α}
    (h : (Variant.record wanted fields make).Gives levels a) :
    ∃ r, fields.Decoded levels r ∧ make r = a := by
  rcases h with ⟨members, h⟩ | ⟨items, h⟩
  · obtain ⟨r, hr, rfl⟩ := map_eq_ok_iff.1 h
    exact ⟨r, Fields.decoded_of_ofObject hr, rfl⟩
  · obtain ⟨r, hr, rfl⟩ := map_eq_ok_iff.1 h
    exact ⟨r, Fields.decoded_of_ofList hr, rfl⟩

theorem Gives.depth_le {tag name wanted : String} {fields : Fields σ ρ} {make : ρ → α}
    {write : ρ → List (String × Json)} {encode : α → Json}
    (h : (Variant.record wanted fields make).Gives levels a) (hw : fields.Inverts levels write)
    (he : ∀ r, encode (make r) = .object ((tag, .text name) :: write r)) :
    (encode a).depth ≤ levels + 1 := by
  obtain ⟨r, hr, rfl⟩ := h.record
  rw [he, depth, membersDepth, depth, Nat.zero_max]
  exact Nat.succ_le_succ (hw.bounded hr)

theorem splitTag_of_ne {key : String} (h : key ≠ tag) (j : Json) (ms : List (String × Json))
    (v : Option (Variant α)) :
    splitTag tag variants stage levels (ofMembers ((key, j) :: ms)) v =
      ((ofJson j).readWhole levels >>= fun d =>
        splitTag tag variants stage levels (ofMembers ms) v >>= fun r =>
          pure (r.1, (.name key, d) :: r.2)) := if_neg h

/-- Past the tag, the members are read whole. -/
theorem splitTag_of_fresh {ms : List (String × Json)} (hms : MembersReadable ms)
    (fresh : ∀ m ∈ ms, m.1 ≠ tag) (stage : Stage) (levels : Nat) (v : Option (Variant α)) :
    splitTag tag variants stage levels (ofMembers ms) v =
      limited (.fault .tooDeep) levels (membersDepth ms) (v, ofMembers ms) := by
  induction ms with
  | nil => exact (limited_flat _ levels _).symm
  | cons m ms ih =>
    obtain ⟨key, j⟩ := m
    have hkey : key ≠ tag := fresh (key, j) (List.mem_cons_self ..)
    have hrest := ih hms.2 fun m hm => fresh m (List.mem_cons_of_mem _ hm)
    rw [splitTag_of_ne hkey, Document.readWhole_ofJson hms.1, membersDepth]
    refine limited_bind ?_
    rw [hrest, limited_bind_pure]
    rfl

/-- The tag is found anywhere among the members, which are read whole. -/
theorem splitTag_among {name : String} {v : Variant α} (hv : variants.lookup name = some v)
    (before : List (String × Json)) {after : List (String × Json)}
    (hms : MembersReadable (before ++ after)) (fresh : ∀ m ∈ before ++ after, m.1 ≠ tag)
    (stage : Stage) (levels : Nat) :
    splitTag tag variants stage levels (ofMembers (before ++ (tag, .text name) :: after)) none =
      limited (.fault .tooDeep) levels (membersDepth (before ++ after))
        (some v, ofMembers (before ++ after)) := by
  induction before with
  | nil =>
    have htag : splitTag tag variants stage levels (ofMembers ((tag, .text name) :: after)) none =
        (Decoder.choose variants name >>= fun v =>
          splitTag tag variants stage levels (ofMembers after) (some v)) := if_pos rfl
    rw [Decoder.choose_of_lookup hv] at htag
    exact htag.trans (splitTag_of_fresh hms fresh stage levels (some v))
  | cons m before ih =>
    obtain ⟨key, j⟩ := m
    have hkey : key ≠ tag := fresh (key, j) (List.mem_cons_self ..)
    have hrest := ih hms.2 fun m hm => fresh m (List.mem_cons_of_mem _ hm)
    rw [List.cons_append, splitTag_of_ne hkey, Document.readWhole_ofJson hms.1]
    refine limited_bind ?_
    rw [hrest, limited_bind_pure]
    rfl

theorem mem_of_splitTag {members others : List (Key × Document)} {v? : Option (Variant α)}
    {v : Variant α} (h : splitTag tag variants stage levels members v? = .ok (some v, others)) :
    v? = some v ∨ ∃ name, (name, v) ∈ variants := by
  induction members generalizing v? others with
  | nil =>
    cases h
    exact .inl rfl
  | cons m members ih =>
    obtain ⟨key, d⟩ := m
    obtain ⟨name, -, h⟩ := bind_eq_ok_iff.1 h
    split at h
    · split at h
      · cases h
      · obtain ⟨v', hv', h⟩ := bind_eq_ok_iff.1 h
        rcases ih h with hv | hv
        · cases hv
          exact .inr (Decoder.mem_of_tagName hv')
        · exact .inr hv
    · obtain ⟨d, -, h⟩ := bind_eq_ok_iff.1 h
      obtain ⟨⟨v'', others⟩, hrest, h⟩ := bind_eq_ok_iff.1 h
      cases h
      exact ih hrest

end Variant

namespace Decoder

/-- Each value has a name of its own among the alternatives. -/
theorem inverts_name {alternatives : List (String × α)} {symbol : α → String}
    (h : ∀ a, alternatives.lookup (symbol a) = some a) (levels : Nat) :
    (name alternatives).Inverts levels fun a => .text (symbol a) where
  readable _ := trivial
  reads a _ := (choose_of_lookup (h a)).trans (limited_flat _ levels a).symm
  bounded _ := Nat.zero_le levels

/-- An object that starts with its tag is read as the form of that name. -/
theorem reads_tagged (type : String) {tag name wanted : String}
    {variants : List (String × Variant α)} {fields : Fields σ ρ} {make : ρ → α}
    {ms : List (String × Json)} {r : ρ}
    (hv : variants.lookup name = some (.record wanted fields make))
    (h : ∀ levels, fields.Reads levels ms r) (ha : make r = a) (fresh : ∀ m ∈ ms, m.1 ≠ tag) :
    (Json.object ((tag, .text name) :: ms)).Readable ∧
      (tagged type tag variants).Reads levels (.object ((tag, .text name) :: ms)) a := by
  refine ⟨⟨trivial, (h 0).readable⟩, fun stage => ?_⟩
  rw [depth, membersDepth, depth, Nat.zero_max]
  cases levels with
  | zero => exact (limited_zero _ _ _).symm
  | succ inner =>
    have hsplit : Variant.splitTag tag variants stage inner (ofMembers ((tag, .text name) :: ms))
        none = limited (.fault .tooDeep) inner (membersDepth ms)
          (some (.record wanted fields make), ofMembers ms) :=
      Variant.splitTag_among hv [] (h inner).readable fresh stage inner
    change (Variant.splitTag tag variants stage inner (ofMembers ((tag, .text name) :: ms)) none >>=
      _) = _
    rw [hsplit, limited_succ]
    refine limited_bind_same ?_
    change (fields.ofObject .whole inner (ofMembers ms) .closed).map make = _
    rw [(h inner).ofObject, limited_map, ha]

/-- A value that is accepted has come from one of the forms, one level further in. -/
theorem gives_of_tagged {type tag : String} {variants : List (String × Variant α)} {d : Document}
    (h : tagged type tag variants stage levels d = .ok a) :
    ∃ inner, levels = inner + 1 ∧ ∃ m ∈ variants, m.2.Gives inner a := by
  unfold tagged at h
  split at h
  · obtain ⟨inner, rfl, h⟩ := within_eq_ok_iff.1 h
    refine ⟨inner, rfl, ?_⟩
    split at h
    · obtain ⟨-, -, h⟩ := bind_eq_ok_iff.1 h
      cases h
    · obtain ⟨v, hv, h⟩ := bind_eq_ok_iff.1 h
      obtain ⟨items, -, h⟩ := bind_eq_ok_iff.1 h
      obtain ⟨-, -, h⟩ := bind_eq_ok_iff.1 h
      obtain ⟨name, hm⟩ := mem_of_tagName hv
      exact ⟨(name, v), hm, .inr ⟨items, h⟩⟩
  · obtain ⟨inner, rfl, h⟩ := within_eq_ok_iff.1 h
    refine ⟨inner, rfl, ?_⟩
    obtain ⟨⟨v?, others⟩, hsplit, h⟩ := bind_eq_ok_iff.1 h
    obtain ⟨-, -, h⟩ := bind_eq_ok_iff.1 h
    split at h
    · cases h
    · rcases Variant.mem_of_splitTag hsplit with hv | ⟨name, hm⟩
      · cases hv
      · exact ⟨(name, _), hm, .inl ⟨others, h⟩⟩
  · cases h

end Decoder

/-! A tag beside the content. -/

namespace Alternative

/-- A value of this form has come from its content, or stands for itself. -/
def Gives (form : Alternative α) (levels : Nat) (a : α) : Prop :=
  (∃ stage d, form.decode stage levels d = .ok a) ∨ form.withoutContent = some a

theorem Gives.bare {wanted : String} {value : α}
    (h : (Alternative.bare wanted value).Gives levels a) : a = value := by
  rcases h with ⟨stage, d, h⟩ | h
  · unfold Alternative.bare at h
    dsimp only at h
    split at h
    · cases h
      rfl
    · split at h
      · obtain ⟨inner, -, h⟩ := within_eq_ok_iff.1 h
        cases h
      · obtain ⟨inner, -, h⟩ := within_eq_ok_iff.1 h
        cases h
      · cases h
  · cases h
    rfl

theorem Gives.content {β : Type} {decode : Decoder β} {make : β → α}
    (h : (Alternative.content decode make).Gives levels a) :
    ∃ stage d b, decode stage levels d = .ok b ∧ make b = a := by
  rcases h with ⟨stage, d, h⟩ | h
  · obtain ⟨b, hb, rfl⟩ := map_eq_ok_iff.1 h
    exact ⟨stage, d, b, hb, rfl⟩
  · cases h

end Alternative

theorem nextPart_tag (tag content : String) (ending : ObjectEnd) (d : Document)
    (members : List (Key × Document)) :
    nextPart tag content ending ((.name tag, d) :: members) = .ok (some (.tag, d, members)) :=
  if_pos rfl

theorem nextPart_content {tag content : String} (hne : content ≠ tag) (ending : ObjectEnd)
    (d : Document) (members : List (Key × Document)) :
    nextPart tag content ending ((.name content, d) :: members) =
      .ok (some (.content, d, members)) :=
  (if_neg hne).trans (if_pos rfl)

namespace Decoder

variable {tag content name : String} {alternatives : List (String × Alternative α)}
  {form : Alternative α}

theorem reads_adjacent (type : String) (hne : content ≠ tag)
    (hform : alternatives.lookup name = some form) {j : Json}
    (h : ∀ inner, levels = inner + 1 → form.decode.Reads inner j a) :
    (adjacent type tag content alternatives).Reads levels
      (.object [(tag, .text name), (content, j)]) a := by
  intro stage
  have hdepth : (Json.object [(tag, .text name), (content, j)]).depth = j.depth + 1 := by
    simp [depth, membersDepth]
  rw [hdepth]
  cases levels with
  | zero => exact (limited_zero _ _ _).symm
  | succ inner =>
    change (nextPart tag content .closed
      [(.name tag, .text name), (.name content, .ofJson j)] >>= _) = _
    rw [nextPart_tag]
    change (choose alternatives name >>= _) = _
    rw [choose_of_lookup hform]
    change (nextPart tag content .closed [(.name content, .ofJson j)] >>= _) = _
    rw [nextPart_content hne]
    change (form.decode stage inner (.ofJson j) >>= _) = _
    rw [h inner rfl stage, limited_succ]
    exact limited_bind_pure _ inner _ a id

theorem reads_adjacent_bare (type content : String)
    (hform : alternatives.lookup name = some form) (h : form.withoutContent = some a) :
    (adjacent type tag content alternatives).Reads levels (.object [(tag, .text name)]) a := by
  intro stage
  have hdepth : (Json.object [(tag, .text name)]).depth = 1 := by simp [depth, membersDepth]
  rw [hdepth]
  cases levels with
  | zero => exact (limited_zero _ _ _).symm
  | succ inner =>
    rw [limited_succ, limited_flat]
    change (nextPart tag content .closed [(.name tag, .text name)] >>= _) = _
    rw [nextPart_tag]
    change (choose alternatives name >>= _) = _
    rw [choose_of_lookup hform]
    obtain ⟨decode, _⟩ := form
    cases h
    rfl

theorem gives_of_adjacent {type : String} {d : Document}
    (h : adjacent type tag content alternatives stage levels d = .ok a) :
    ∃ inner, levels = inner + 1 ∧ ∃ m ∈ alternatives, m.2.Gives inner a := by
  unfold adjacent at h
  split at h
  · obtain ⟨inner, rfl, h⟩ := within_eq_ok_iff.1 h
    refine ⟨inner, rfl, ?_⟩
    split at h
    · obtain ⟨-, -, h⟩ := bind_eq_ok_iff.1 h
      cases h
    · obtain ⟨-, -, h⟩ := bind_eq_ok_iff.1 h
      obtain ⟨-, -, h⟩ := bind_eq_ok_iff.1 h
      cases h
    · obtain ⟨form, hform, h⟩ := bind_eq_ok_iff.1 h
      obtain ⟨a', ha, h⟩ := bind_eq_ok_iff.1 h
      obtain ⟨-, -, h⟩ := bind_eq_ok_iff.1 h
      cases h
      obtain ⟨name, hm⟩ := mem_of_tagName hform
      exact ⟨(name, form), hm, .inl ⟨_, _, ha⟩⟩
  · obtain ⟨inner, rfl, h⟩ := within_eq_ok_iff.1 h
    refine ⟨inner, rfl, ?_⟩
    obtain ⟨part?, -, h⟩ := bind_eq_ok_iff.1 h
    split at h
    · cases h
    · obtain ⟨form, hform, h⟩ := bind_eq_ok_iff.1 h
      obtain ⟨name, hm⟩ := mem_of_name hform
      obtain ⟨next?, -, h⟩ := bind_eq_ok_iff.1 h
      split at h
      · split at h
        · cases h
        · rename_i a' ha
          cases h
          exact ⟨(name, form), hm, .inr ha⟩
      · cases h
      · obtain ⟨a', ha, h⟩ := bind_eq_ok_iff.1 h
        obtain ⟨-, -, h⟩ := bind_eq_ok_iff.1 h
        cases h
        exact ⟨(name, form), hm, .inl ⟨_, _, ha⟩⟩
    · obtain ⟨c, -, h⟩ := bind_eq_ok_iff.1 h
      obtain ⟨next?, -, h⟩ := bind_eq_ok_iff.1 h
      split at h
      · cases h
      · cases h
      · obtain ⟨form, hform, h⟩ := bind_eq_ok_iff.1 h
        obtain ⟨a', ha, h⟩ := bind_eq_ok_iff.1 h
        obtain ⟨-, -, h⟩ := bind_eq_ok_iff.1 h
        cases h
        obtain ⟨name, hm⟩ := mem_of_name hform
        exact ⟨(name, form), hm, .inl ⟨_, _, ha⟩⟩
  · cases h

end Decoder

end MethodIR.Json
