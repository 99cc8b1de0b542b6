import MethodIR.Proofs.Json.Forms
import MethodIR.Proofs.Json.Spelling

/-!
Decoders accept every spelling of a value: those that read a document as it comes, and those that
read it whole before they look at it.
-/
namespace MethodIR.Json

open Document (ofJson ofItems ofMembers)

variable {α β σ ρ : Type} {p : Literal → Prop} {extra : Json → Prop} {spelling : α → Json → Prop}
  {levels : Nat}

/-- Whatever is spelled so is read as `a`, at either stage, unless it is too deep; and the numbers
in it have the property `p`. -/
structure Decoder.Accepts (decode : Decoder α) (p : Literal → Prop) (spelled : Json → Prop)
    (a : α) : Prop where
  numbers : ∀ {j}, spelled j → j.Numbers p
  reads : ∀ {j}, spelled j → ∀ stage {levels}, j.depth ≤ levels →
    decode stage levels (.ofJson j) = .ok a

theorem within_of_depth {inside : Nat → Except Error α} {a : α} {depth : Nat}
    (h : depth + 1 ≤ levels) (hinside : ∀ inner, depth ≤ inner → inside inner = .ok a) :
    within levels inside = .ok a := by
  obtain ⟨inner, rfl⟩ := Nat.exists_eq_add_of_le' h
  exact hinside (inner + depth) (Nat.le_add_left depth inner)

namespace Decoder

variable {decode : Decoder α} {spelled : Json → Prop} {a : α}

theorem accepts_written {encode : α → Json} (h : ∀ levels, decode.Inverts levels encode) (a : α) :
    decode.Accepts Literal.Readable (Written encode a) a where
  numbers := by
    rintro _ rfl
    exact (h 0).readable a
  reads := by
    rintro _ rfl stage levels hdepth
    exact ((h levels).reads a stage).trans (if_pos hdepth)

theorem Accepts.valid (h : decode.Accepts Literal.Readable spelled a) :
    decode.Accepts Literal.WellFormed spelled a where
  numbers hj := Readable.valid (h.numbers hj)
  reads := h.reads

theorem Accepts.map (h : decode.Accepts p spelled a) (f : α → β) :
    (decode.map f).Accepts p spelled (f a) where
  numbers := h.numbers
  reads hj stage _ hdepth := congrArg (Except.map f) (h.reads hj stage hdepth)

theorem accepts_nullable (h : ∀ a, decode.Accepts p (spelling a) a)
    (hne : ∀ a j, spelling a j → j ≠ .null) (a? : Option α) :
    decode.nullable.Accepts p (SpelledOption spelling a?) a? where
  numbers hj := hj.numbers fun a _ => (h a).numbers
  reads {j} hj stage levels hdepth := by
    cases a? with
    | none =>
      cases hj
      rfl
    | some a =>
      rw [nullable_ofJson decode stage levels (hne a j hj), (h a).reads hj stage hdepth]
      rfl

theorem accepts_list (h : ∀ a, decode.Accepts p (spelling a) a) (as : List α) :
    (Decoder.list decode).Accepts p (SpelledList spelling as) as where
  numbers hj := hj.numbers fun a _ => (h a).numbers
  reads hj stage levels hdepth := by
    obtain ⟨js, rfl, hjs⟩ := hj
    refine within_of_depth hdepth fun inner hinner => ?_
    have hitems : (Document.ofItems js).mapM (decode stage inner) = .ok as := by
      clear hdepth
      induction hjs with
      | nil => rfl
      | @cons a j as js hj _ ih =>
        obtain ⟨hfirst, hrest⟩ := Nat.max_le.1 hinner
        rw [Document.ofItems, List.mapM_cons, (h a).reads hj stage hfirst, ih hrest]
        rfl
    rw [hitems]
    rfl

/-- The first decoder that does not refuse the value decides. -/
theorem accepts_firstOf (name : String) (before : List (Decoder α)) {after : List (Decoder α)}
    (h : decode.Accepts Literal.Readable spelled a)
    (hbefore : ∀ j, spelled j → ∀ d ∈ before, ∀ levels,
      (d .whole levels (.ofJson j)).toOption = none) :
    (firstOf name (before ++ decode :: after)).Accepts Literal.Readable spelled a where
  numbers := h.numbers
  reads {j} hj stage levels hdepth := by
    have hskip : (before.findSome? fun decode => (decode .whole levels (.ofJson j)).toOption) =
        none := List.findSome?_eq_none_iff.2 fun d hd => hbefore j hj d hd levels
    have hfound : ((before ++ decode :: after).findSome? fun decode =>
        (decode .whole levels (.ofJson j)).toOption) = some a := by
      rw [List.findSome?_append, hskip, List.findSome?_cons, h.reads hj .whole hdepth]
      rfl
    rw [firstOf, Document.readWhole_ofJson (h.numbers hj), limited, if_pos hdepth]
    dsimp only [bind, Except.bind]
    rw [hfound]
    rfl

end Decoder

/-! Fields. -/

namespace Document

mutual

/-- Every value is passed over, whatever its numbers are and however deep it is. -/
theorem skip_ofJson (j : Json) : (ofJson j).skip = .ok () := by
  cases j with
  | null | boolean | number | text => rfl
  | list items =>
    rw [ofJson, skip, skipItems_ofItems items]
    rfl
  | object members =>
    rw [ofJson, skip, skipMembers_ofMembers members]
    rfl

theorem skipItems_ofItems (js : List Json) : skipItems (ofItems js) = .ok () := by
  cases js with
  | nil => rfl
  | cons j js =>
    rw [ofItems, skipItems, skip_ofJson j]
    exact skipItems_ofItems js

theorem skipMembers_ofMembers (ms : List (String × Json)) :
    skipMembers (ofMembers ms) = .ok () := by
  cases ms with
  | nil => rfl
  | cons m ms =>
    rw [ofMembers, skipMembers, skip_ofJson m.2]
    exact skipMembers_ofMembers ms

end

end Document

/-- The field takes whatever is spelled for it as `a`, and has `a` for a default where it may be
left out. -/
structure RecordField.Accepts (field : RecordField α) (p : Literal → Prop) (f : FieldSpelling)
    (a : α) : Prop where
  name : field.name = f.name
  value : field.decode.Accepts p f.value a
  missing : f.omissible → field.missing = some a
  cut : f.cuttable → field.cut = some a

namespace RecordField

variable {decode : Decoder α}

theorem accepts_required (name : String) {spelled : Json → Prop} {a : α}
    (h : decode.Accepts p spelled a) :
    (RecordField.required name decode).Accepts p (.required name spelled) a :=
  ⟨rfl, h, fun h => h.elim, fun h => h.elim⟩

theorem accepts_optional (name : String) (h : ∀ a, decode.Accepts p (spelling a) a)
    (hne : ∀ a j, spelling a j → j ≠ .null) (a? : Option α) :
    (RecordField.optional name decode).Accepts p (.optional name spelling a?) a? :=
  ⟨rfl, Decoder.accepts_nullable h hne a?, fun h => congrArg some h.symm, fun h => h.elim⟩

theorem accepts_withDefault (name : String) (default : α) {a : α}
    (h : decode.Accepts p (spelling a) a) :
    (RecordField.withDefault name decode default).Accepts p
      (.withDefault name spelling default a) a :=
  ⟨rfl, h, fun h => congrArg some h.symm, fun h => congrArg some h.symm⟩

end RecordField

/-! Records. -/

namespace Fields

/-- Each field takes what is spelled for it as the value in the record, and no other field has its
name. -/
inductive Accepts (p : Literal → Prop) :
    {σ ρ : Type} → Fields σ ρ → List FieldSpelling → ρ → Prop where
  | done : Accepts p .done [] ()
  | field {α σ ρ : Type} {field : RecordField α} {others : Fields σ ρ} {f : FieldSpelling}
      {spelled : List FieldSpelling} {a : α} {r : ρ} (h : field.Accepts p f a)
      (fresh : ∀ g ∈ spelled, f.name ≠ g.name) (hs : Accepts p others spelled r) :
    Accepts p (.field field others) (f :: spelled) (a, r)

variable {stage : Stage}

theorem readMembers_done (stage : Stage) (levels : Nat) (ms : List (String × Json)) :
    done.readMembers stage levels (ofMembers ms) () = .ok () := by
  induction ms with
  | nil => rfl
  | cons m ms ih =>
    obtain ⟨key, j⟩ := m
    rw [ofMembers, readMembers_name]
    change (ofFault (ofJson j).skip >>= _) = _
    rw [Document.skip_ofJson]
    exact ih

/-- The member of the first field is found among others. -/
theorem readMembers_among {field : RecordField α} {others : Fields σ ρ}
    {before after : List (String × Json)} {j : Json} {a : α}
    (hj : field.decode stage levels (ofJson j) = .ok a)
    (fresh : ∀ m ∈ before ++ after, field.name ≠ m.1) (slots : σ) :
    (Fields.field field others).readMembers stage levels
        (ofMembers (before ++ (field.name, j) :: after)) (none, slots) =
      (others.readMembers stage levels (ofMembers (before ++ after)) slots).map (some a, ·) := by
  induction before generalizing slots with
  | nil =>
    rw [List.nil_append, ofMembers, readMembers_name, put_of_eq, hj]
    exact readMembers_of_fresh fresh (some a) slots
  | cons m before ih =>
    exact readMembers_other (fresh m List.mem_cons_self) _
      (ih fun m hm => fresh m (List.mem_cons_of_mem _ hm)) slots

variable {fields : Fields σ ρ} {spelled : List FieldSpelling} {r : ρ}

theorem Accepts.numbers (h : fields.Accepts p spelled r) :
    ∀ f ∈ spelled, ∀ j, f.value j → j.Numbers p := by
  induction h with
  | done => exact fun f hf => nomatch hf
  | field hf _ _ ih => exact List.forall_mem_cons.2 ⟨fun j hj => hf.value.numbers hj, ih⟩

/-- By induction on the fields: each takes its member out of the object or its default. -/
theorem Accepts.readMembers (h : fields.Accepts p spelled r) (stage : Stage)
    {ms : List (String × Json)} (hms : SpelledMembers extra spelled ms)
    (hdepth : ∀ m ∈ ms, m.2.depth ≤ levels) :
    (fields.readMembers stage levels (ofMembers ms) fields.empty >>= fields.finish) = .ok r := by
  induction h generalizing ms with
  | done =>
    change (Fields.readMembers .done stage levels (ofMembers ms) () >>= finish .done) = _
    rw [readMembers_done]
    rfl
  | @field α σ ρ field others f spelled a r hf fresh hs ih =>
    rw [empty]
    rcases hms.cons_cases fresh with ⟨before, j, after, rfl, hj, hne, hrest⟩ | ⟨homit, hne, hrest⟩
    · rw [← hf.name] at hne hdepth ⊢
      have hread := hf.value.reads hj stage (hdepth _ (List.mem_append_right _ List.mem_cons_self))
      have hinner : ∀ m ∈ before ++ after, m.2.depth ≤ levels := fun m hm =>
        hdepth m (List.perm_middle.mem_iff.2 (List.mem_cons_of_mem _ hm))
      rw [readMembers_among hread hne, map_bind_finish rfl, ih hrest hinner]
      rfl
    · rw [← hf.name] at hne
      have hslot : (none <|> field.missing) = some a := hf.missing homit
      rw [readMembers_of_fresh hne, map_bind_finish hslot, ih hrest hdepth]
      rfl

theorem Accepts.ofObject (h : fields.Accepts p spelled r) (stage : Stage)
    {ms : List (String × Json)} (hms : SpelledMembers extra spelled ms)
    (hdepth : membersDepth ms ≤ levels) :
    fields.ofObject stage levels (ofMembers ms) .closed = .ok r :=
  h.readMembers stage hms (membersDepth_le_iff.1 hdepth)

/-- By induction on the fields: each takes the first item that is left, or its default at the end of
the list. -/
theorem Accepts.readItems (h : fields.Accepts p spelled r) (wanted : String) (stage : Stage)
    (position : Nat) {js : List Json} (hjs : SpelledItems spelled js)
    (hdepth : itemsDepth js ≤ levels) :
    fields.readItems wanted stage levels .closed position (ofItems js) = .ok (r, []) := by
  induction h generalizing js position with
  | done =>
    cases hjs
    rfl
  | @field α σ ρ field others f spelled a r hf fresh hs ih =>
    cases hjs with
    | cut hcut =>
      have hfirst : field.cut = some a := hf.cut (hcut f List.mem_cons_self)
      have hrest := ih (position + 1) (.cut fun g hg => hcut g (List.mem_cons_of_mem _ hg)) hdepth
      rw [ofItems] at hrest ⊢
      rw [Fields.readItems, hfirst]
      change (others.readItems wanted stage levels .closed (position + 1) [] >>= _) = _
      rw [hrest]
      rfl
    | item hj hjs =>
      obtain ⟨hfirst, hdepth⟩ := Nat.max_le.1 hdepth
      rw [ofItems, Fields.readItems, hf.value.reads hj stage hfirst]
      change (others.readItems wanted stage levels .closed (position + 1) _ >>= _) = _
      rw [ih (position + 1) hjs hdepth]
      rfl

theorem Accepts.ofList (h : fields.Accepts p spelled r) (wanted : String) (stage : Stage)
    {js : List Json} (hjs : SpelledItems spelled js) (hdepth : itemsDepth js ≤ levels) :
    fields.ofList wanted stage levels (ofItems js) .closed = .ok r := by
  rw [Fields.ofList, h.readItems _ stage 0 hjs hdepth]
  cases stage <;> rfl

end Fields

namespace Decoder

variable {fields : Fields σ ρ} {spelled : List FieldSpelling} {r : ρ}

theorem accepts_object (wanted : String) (h : fields.Accepts p spelled r)
    (hextra : ∀ j, extra j → j.Numbers p) :
    (object wanted fields).Accepts p (SpelledObject extra spelled) r where
  numbers hj := hj.numbers h.numbers hextra
  reads hj stage levels hdepth := by
    obtain ⟨ms, rfl, hms⟩ := hj
    exact within_of_depth hdepth fun inner hinner => h.ofObject stage hms hinner

theorem accepts_record (wanted : String) (h : fields.Accepts p spelled r)
    (hextra : ∀ j, extra j → j.Numbers p) :
    (record wanted fields).Accepts p (SpelledRecord extra spelled) r where
  numbers hj := hj.numbers h.numbers hextra
  reads hj stage levels hdepth := by
    rcases hj with ⟨ms, rfl, hms⟩ | ⟨js, rfl, hjs⟩
    · exact within_of_depth hdepth fun inner hinner => h.ofObject stage hms hinner
    · exact within_of_depth hdepth fun inner hinner => h.ofList wanted stage hjs hinner

end Decoder

/-! Values of several forms. -/

/-- The form takes what is left without the tag, in an object or in a list. -/
structure Variant.Accepts (v : Variant α) (spelled : List FieldSpelling) (a : α) : Prop where
  readable : ∀ f ∈ spelled, ∀ j, f.value j → j.Readable
  object : ∀ {extra levels ms}, SpelledMembers extra spelled ms → membersDepth ms ≤ levels →
    v.ofObject levels (ofMembers ms) = .ok a
  list : ∀ {levels js}, SpelledItems spelled js → itemsDepth js ≤ levels →
    v.ofList levels (ofItems js) = .ok a

theorem Variant.accepts_record (wanted : String) {fields : Fields σ ρ}
    {spelled : List FieldSpelling} {r : ρ} (h : fields.Accepts Literal.Readable spelled r)
    (make : ρ → α) : (Variant.record wanted fields make).Accepts spelled (make r) where
  readable := h.numbers
  object hms hdepth := congrArg (Except.map make) (h.ofObject .whole hms hdepth)
  list hjs hdepth := congrArg (Except.map make) (h.ofList wanted .whole hjs hdepth)

theorem Variant.accepts_bare (a : α) : (Variant.bare a).Accepts [] a where
  readable _ hf := nomatch hf
  object _ _ := rfl
  list hjs _ := by
    cases hjs
    rfl

namespace Decoder

theorem readWhole_items {js : List Json} (h : ItemsReadable js) (hdepth : itemsDepth js ≤ levels) :
    (ofItems js).mapM (·.readWhole levels) = .ok (ofItems js) := by
  induction js with
  | nil => rfl
  | cons j js ih =>
    obtain ⟨hfirst, hrest⟩ := Nat.max_le.1 hdepth
    rw [ofItems, List.mapM_cons, Document.readWhole_ofJson h.1, limited, if_pos hfirst,
      ih h.2 hrest]
    rfl

variable {type tag name : String} {variants : List (String × Variant α)} {v : Variant α}
  {spelled : List FieldSpelling} {a : α}

/-- The tag is taken out of an object wherever it stands. -/
theorem tagged_object (hv : variants.lookup name = some v) (h : v.Accepts spelled a)
    (fresh : ∀ f ∈ spelled, tag ≠ f.name) {ms : List (String × Json)} (hread : MembersReadable ms)
    (hms : SpelledMembers extra (.required tag (Written .text name) :: spelled) ms) (stage : Stage)
    (hdepth : membersDepth ms + 1 ≤ levels) :
    tagged type tag variants stage levels (.object (ofMembers ms) .closed) = .ok a := by
  obtain ⟨before, j, after, rfl, rfl, hne, hrest⟩ := hms.exists_required fresh
  refine within_of_depth hdepth fun inner hinner => ?_
  have hothers : ∀ m ∈ before ++ after, m.2.Readable ∧ m.2.depth ≤ inner := by
    intro m hm
    have hmem : m ∈ before ++ (tag, .text name) :: after :=
      List.perm_middle.mem_iff.2 (List.mem_cons_of_mem _ hm)
    exact ⟨membersNumbers_iff.1 hread m hmem, membersDepth_le_iff.1 hinner m hmem⟩
  have hreadable := membersNumbers_iff.2 fun m hm => (hothers m hm).1
  have hshallow := membersDepth_le_iff.2 fun m hm => (hothers m hm).2
  have hsplit := Variant.splitTag_among hv before hreadable (fun m hm => (hne m hm).symm)
    stage inner
  rw [limited, if_pos hshallow] at hsplit
  change (Variant.splitTag tag variants stage inner (ofMembers _) none >>= _) = _
  rw [hsplit]
  exact h.object hrest hshallow

/-- The tag is the first item of a list. -/
theorem tagged_list (hv : variants.lookup name = some v) (h : v.Accepts spelled a) {js : List Json}
    (hread : ItemsReadable js)
    (hjs : SpelledItems (.required tag (Written .text name) :: spelled) js) (stage : Stage)
    (hdepth : itemsDepth js + 1 ≤ levels) :
    tagged type tag variants stage levels (.list (ofItems js) .closed) = .ok a := by
  refine within_of_depth hdepth fun inner hinner => ?_
  cases hjs with
  | cut hcut => exact (hcut _ List.mem_cons_self).elim
  | @item _ _ _ js hname hjs =>
    cases hname
    obtain ⟨-, hitems⟩ := Nat.max_le.1 hinner
    have htag : tagName variants stage inner (.text name) = .ok v := choose_of_lookup hv
    change (tagName variants stage inner (.text name) >>= _) = _
    rw [htag]
    change ((ofItems js).mapM (·.readWhole inner) >>= _) = _
    rw [readWhole_items hread.2 hitems]
    exact h.list hjs hitems

/-- All but the tag is read whole, members that are no fields too. -/
theorem accepts_tagged (type : String) (hv : variants.lookup name = some v)
    (h : v.Accepts spelled a) (fresh : ∀ f ∈ spelled, tag ≠ f.name)
    (hextra : ∀ j, extra j → j.Readable) :
    (tagged type tag variants).Accepts Literal.Readable
      (SpelledRecord extra (.required tag (Written .text name) :: spelled)) a := by
  have hread : ∀ {j}, SpelledRecord extra (.required tag (Written .text name) :: spelled) j →
      j.Readable := fun hj => by
    refine hj.numbers (List.forall_mem_cons.2 ⟨?_, h.readable⟩) hextra
    rintro _ rfl
    trivial
  refine ⟨hread, fun {j} hj stage levels hdepth => ?_⟩
  have hj' := hread hj
  rcases hj with ⟨ms, rfl, hms⟩ | ⟨js, rfl, hjs⟩
  · exact tagged_object hv h fresh hj' hms stage hdepth
  · exact tagged_list hv h hj' hjs stage hdepth

end Decoder

end MethodIR.Json
