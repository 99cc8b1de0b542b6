import MethodIR.Proofs.Json.Renumbering

/-!
Decoders accept nothing but exact numbers. Of a document that has the form of some value, whatever
literals stand in it for numbers, a decoder accepts only what is spelled as the value that it gives:
what succeeds part by part has been spelled part by part.
-/
namespace MethodIR.Json

open Document (ofItems ofMembers)

variable {α β σ ρ : Type} {p : Literal → Prop} {extra : Json → Prop} {stage : Stage} {levels : Nat}
  {j : Json}

/-- Of what has the form of a value, the decoder accepts only what is spelled as the value that it
gives. -/
structure Decoder.Exact (decode : Decoder α) (p : Literal → Prop) (loose spelled : α → Json → Prop) :
    Prop where
  spells : ∀ {a₀ j}, UpToNumbers (loose a₀) j → j.Numbers p → ∀ {stage levels a},
    decode stage levels (.ofJson j) = .ok a → spelled a j

/-! Numbers. -/

/-- No literal but that of an integer is read as that integer. -/
theorem Literal.eq_ofInt {l : Literal} {n : Int} (h : l.number = .ok (.integer n)) :
    l = .ofInt n := by
  by_cases hfits : l.isInteger && (if l.negative then
      l.whole != 0 && l.whole ≤ 0x8000000000000000 else l.whole < UInt64.size)
  · rw [number, if_pos hfits] at h
    cases h
    obtain ⟨negative, whole, fraction, exponent⟩ := l
    obtain ⟨hinteger, hfits⟩ := Bool.and_eq_true_iff.1 hfits
    obtain ⟨hfraction, hexponent⟩ := Bool.and_eq_true_iff.1 hinteger
    cases List.isEmpty_iff.1 hfraction
    cases Option.isNone_iff_eq_none.1 hexponent
    cases negative with
    | true =>
      have hne : whole ≠ 0 := by
        simp at hfits
        exact hfits.1
      simp [ofInt, integer]
      omega
    | false => simp [ofInt, integer]
  · rw [number, if_neg hfits] at h
    obtain ⟨x, -, hx⟩ := map_eq_ok_iff.1 h
    cases hx

namespace Decoder

theorem integer_eq_ok {least greatest n : Int} {wanted : String}
    (h : integer least greatest wanted stage levels (.ofJson j) = .ok n) :
    j = .int n ∧ least ≤ n ∧ n ≤ greatest := by
  cases j with
  | number l =>
    simp only [Document.ofJson, integer] at h
    split at h
    · rename_i m hnumber
      by_cases hrange : least ≤ m ∧ m ≤ greatest
      · rw [if_pos hrange] at h
        cases h
        exact ⟨congrArg Json.number (Literal.eq_ofInt hnumber), hrange⟩
      · rw [if_neg hrange] at h
        cases h
    · cases h
  | _ => cases h

theorem u32_eq_ok {n : UInt32} (h : Decoder.u32 stage levels (.ofJson j) = .ok n) :
    j = Json.u32 n := by
  obtain ⟨i, hi, rfl⟩ := map_eq_ok_iff.1 h
  obtain ⟨rfl, hleast, hgreatest⟩ := integer_eq_ok hi
  have hback : ((UInt32.ofNat i.toNat).toNat : Int) = i := by
    rw [UInt32.toNat_ofNat']
    omega
  rw [Json.u32, Json.nat, hback]

theorem i64_eq_ok {n : Int64} (h : Decoder.i64 stage levels (.ofJson j) = .ok n) :
    j = Json.i64 n := by
  obtain ⟨i, hi, rfl⟩ := map_eq_ok_iff.1 h
  obtain ⟨rfl, hleast, hgreatest⟩ := integer_eq_ok hi
  have hback : (Int64.ofInt i).toInt = i :=
    Int64.toInt_ofInt_of_le hleast (Int.lt_add_one_of_le hgreatest)
  rw [Json.i64, hback]

theorem text_eq_ok {s : String} (h : Decoder.text stage levels (.ofJson j) = .ok s) :
    j = .text s := by
  cases j with
  | text t =>
    cases h
    rfl
  | _ => cases h

theorem boolean_eq_ok {b : Bool} (h : Decoder.boolean stage levels (.ofJson j) = .ok b) :
    j = .boolean b := by
  cases j with
  | boolean c =>
    cases h
    rfl
  | _ => cases h

variable {decode : Decoder α} {loose spelled : α → Json → Prop}

theorem exact_u32 : Decoder.u32.Exact p (Written Json.u32) (Written Json.u32) :=
  ⟨fun _ _ _ _ _ => u32_eq_ok⟩

theorem exact_i64 : Decoder.i64.Exact p (Written Json.i64) (Written Json.i64) :=
  ⟨fun _ _ _ _ _ => i64_eq_ok⟩

theorem exact_text : Decoder.text.Exact p (Written .text) (Written .text) :=
  ⟨fun _ _ _ _ _ => text_eq_ok⟩

theorem exact_boolean : Decoder.boolean.Exact p (Written .boolean) (Written .boolean) :=
  ⟨fun _ _ _ _ _ => boolean_eq_ok⟩

/-! Options and lists. -/

theorem exact_nullable (h : decode.Exact p loose spelled) :
    decode.nullable.Exact p (SpelledOption loose) (SpelledOption spelled) where
  spells {a₀ j} hj hnumbers {stage levels a?} ha := by
    by_cases hnull : j = .null
    · subst hnull
      cases ha
      rfl
    · rw [nullable_ofJson decode stage levels hnull] at ha
      obtain ⟨a, hread, rfl⟩ := map_eq_ok_iff.1 ha
      obtain ⟨b, hb⟩ := hj.option.resolve_left hnull
      exact h.spells hb hnumbers hread

theorem spelled_of_mapM (h : decode.Exact p loose spelled) {js : List Json} {as : List α}
    (hjs : ∀ j ∈ js, ∃ a, UpToNumbers (loose a) j) (hnumbers : ItemsNumbers p js)
    (has : (ofItems js).mapM (decode stage levels) = .ok as) : List.Forall₂ spelled as js := by
  induction js generalizing as with
  | nil =>
    cases has
    exact .nil
  | cons j js ih =>
    rw [ofItems, List.mapM_cons] at has
    obtain ⟨a, ha, has⟩ := bind_eq_ok_iff.1 has
    obtain ⟨as, hrest, hcons⟩ := bind_eq_ok_iff.1 has
    cases hcons
    obtain ⟨⟨b, hb⟩, hjs⟩ := List.forall_mem_cons.1 hjs
    exact .cons (h.spells hb hnumbers.1 ha) (ih hjs hnumbers.2 hrest)

theorem exact_list (h : decode.Exact p loose spelled) :
    (Decoder.list decode).Exact p (SpelledList loose) (SpelledList spelled) where
  spells {as₀ j} hj hnumbers {stage levels as} has := by
    obtain ⟨js, rfl, hjs⟩ := hj.list
    obtain ⟨inner, -, has⟩ := within_eq_ok_iff.1 has
    obtain ⟨values, hvalues, has⟩ := bind_eq_ok_iff.1 has
    obtain ⟨-, -, has⟩ := bind_eq_ok_iff.1 has
    cases has
    exact ⟨js, rfl, spelled_of_mapM h hjs hnumbers hvalues⟩

theorem Exact.map (h : decode.Exact p loose spelled) {make : α → β}
    {loose' spelled' : β → Json → Prop} (hloose : ∀ b j, loose' b j → ∃ a, loose a j)
    (hspelled : ∀ a j, spelled a j → spelled' (make a) j) :
    (decode.map make).Exact p loose' spelled' where
  spells {b₀ j} hj hnumbers {stage levels b} hb := by
    obtain ⟨j₀, hj₀, hren⟩ := hj
    obtain ⟨a₀, hloose⟩ := hloose _ _ hj₀
    obtain ⟨a, ha, rfl⟩ := map_eq_ok_iff.1 hb
    exact hspelled a _ (h.spells ⟨j₀, hloose, hren⟩ hnumbers ha)

end Decoder

/-! Fields. -/

/-- What the field takes is spelled as what it holds, and its default may be left out. -/
structure RecordField.Exact (field : RecordField α) (p : Literal → Prop) (f : FieldSpelling)
    (spelled : α → FieldSpelling) : Prop where
  name : field.name = f.name
  names : ∀ a, (spelled a).name = f.name
  value : ∀ {j}, UpToNumbers f.value j → j.Numbers p → ∀ {stage levels a},
    field.decode stage levels (.ofJson j) = .ok a → (spelled a).value j
  missing : ∀ {a}, field.missing = some a → (spelled a).omissible
  cut : ∀ {a}, field.cut = some a → (spelled a).cuttable

namespace RecordField

variable {decode : Decoder α} {loose spelled : α → Json → Prop}

theorem exact_required (name : String) (h : decode.Exact p loose spelled) (a₀ : α) :
    (RecordField.required name decode).Exact p (.required name (loose a₀))
      fun a => .required name (spelled a) where
  name := rfl
  names _ := rfl
  value := h.spells
  missing h := nomatch h
  cut h := nomatch h

theorem exact_optional (name : String) (h : decode.Exact p loose spelled) (a₀ : Option α) :
    (RecordField.optional name decode).Exact p (.optional name loose a₀)
      (.optional name spelled) where
  name := rfl
  names _ := rfl
  value := (Decoder.exact_nullable h).spells
  missing h := (Option.some.inj h).symm
  cut h := nomatch h

theorem exact_withDefault (name : String) (h : decode.Exact p loose spelled) (default a₀ : α) :
    (RecordField.withDefault name decode default).Exact p (.withDefault name loose default a₀)
      (.withDefault name spelled default) where
  name := rfl
  names _ := rfl
  value := h.spells
  missing h := (Option.some.inj h).symm
  cut h := (Option.some.inj h).symm

end RecordField

/-! Records. -/

namespace Fields

/-- What each field takes is spelled as what the record holds for it, and no other field has its
name. -/
inductive Exact (p : Literal → Prop) :
    {σ ρ : Type} → Fields σ ρ → List FieldSpelling → (ρ → List FieldSpelling) → Prop where
  | done : Exact p .done [] fun _ => []
  | field {α σ ρ : Type} {field : RecordField α} {others : Fields σ ρ} {f : FieldSpelling}
      {forms : List FieldSpelling} {first : α → FieldSpelling} {rest : ρ → List FieldSpelling}
      (h : field.Exact p f first) (fresh : ∀ g ∈ forms, f.name ≠ g.name)
      (hs : Exact p others forms rest) :
    Exact p (.field field others) (f :: forms) fun r => first r.1 :: rest r.2

/-- Members are read only if that of the first field is. -/
theorem decoded_of_readMembers {field : RecordField α} {others : Fields σ ρ}
    {before after : List (String × Json)} {slots : σ} {slots' : Option α × σ}
    (fresh : ∀ m ∈ before, field.name ≠ m.1)
    (h : (Fields.field field others).readMembers stage levels
      (ofMembers (before ++ (field.name, j) :: after)) (none, slots) = .ok slots') :
    ∃ a, field.decode stage levels (.ofJson j) = .ok a := by
  induction before generalizing slots with
  | nil =>
    rw [List.nil_append, ofMembers, readMembers_name, put_of_eq] at h
    obtain ⟨_, hread, -⟩ := bind_eq_ok_iff.1 h
    obtain ⟨a, ha, -⟩ := map_eq_ok_iff.1 hread
    exact ⟨a, ha⟩
  | cons m before ih =>
    obtain ⟨hm, hbefore⟩ := List.forall_mem_cons.1 fresh
    rw [List.cons_append, ofMembers, readMembers_name, put_of_ne others stage levels hm] at h
    cases hput : others.put stage levels m.1 (.ofJson m.2) slots with
    | none =>
      rw [hput] at h
      obtain ⟨-, -, h⟩ := bind_eq_ok_iff.1 h
      exact ih hbefore h
    | some read =>
      rw [hput] at h
      obtain ⟨_, hread, h⟩ := bind_eq_ok_iff.1 h
      obtain ⟨slots, -, rfl⟩ := map_eq_ok_iff.1 hread
      exact ih hbefore h

/-- A record is complete only if its first field is. -/
theorem finish_of_map {f : RecordField α} {others : Fields σ ρ} {slot : Option α}
    {x : Except Error σ} {r : α × ρ}
    (h : (x.map (slot, ·) >>= (Fields.field f others).finish) = .ok r) :
    (slot <|> f.missing) = some r.1 ∧ (x >>= others.finish) = .ok r.2 := by
  obtain ⟨_, hx, h⟩ := bind_eq_ok_iff.1 h
  obtain ⟨slots, rfl, rfl⟩ := map_eq_ok_iff.1 hx
  rw [finish] at h
  split at h
  · cases h
  · rename_i a ha
    obtain ⟨r, hr, rfl⟩ := map_eq_ok_iff.1 h
    exact ⟨ha, hr⟩

variable {fields : Fields σ ρ} {forms : List FieldSpelling} {parts : ρ → List FieldSpelling} {r : ρ}

/-- By induction on the fields: each has taken its member out of the object, or has its default. -/
theorem Exact.readMembers (h : fields.Exact p forms parts) {ms : List (String × Json)}
    (hms : SpelledMembers Anything (forms.map FieldSpelling.upToNumbers) ms)
    (hnumbers : ∀ m ∈ ms, m.2.Numbers p)
    (hr : (fields.readMembers stage levels (ofMembers ms) fields.empty >>= fields.finish) = .ok r) :
    SpelledMembers (Numbers p) (parts r) ms := by
  induction h generalizing ms with
  | done => exact spelledMembers_nil hnumbers
  | @field α σ ρ field others f forms first rest hf fresh hs ih =>
    rw [empty] at hr
    rcases hms.cons_cases (List.forall_mem_map.2 fresh) with
      ⟨before, j, after, rfl, hj, hne, hrest⟩ | ⟨-, hne, hrest⟩
    · rw [FieldSpelling.name_upToNumbers, ← hf.name] at hne hnumbers hr ⊢
      obtain ⟨hbefore, -⟩ := List.forall_mem_append.1 hne
      obtain ⟨_, hread, -⟩ := bind_eq_ok_iff.1 hr
      obtain ⟨a, ha⟩ := decoded_of_readMembers hbefore hread
      rw [readMembers_among ha hne] at hr
      obtain ⟨hslot, hothers⟩ := finish_of_map hr
      cases hslot
      have hinner : ∀ m ∈ before ++ after, m.2.Numbers p := fun m hm =>
        hnumbers m (List.perm_middle.mem_iff.2 (List.mem_cons_of_mem _ hm))
      have hvalue := hf.value hj
        (hnumbers (field.name, j) (List.perm_middle.mem_iff.2 List.mem_cons_self)) ha
      have hname : (first r.1).name = field.name := (hf.names r.1).trans hf.name.symm
      rw [← hname] at hne ⊢
      exact (ih hrest hinner hothers).keep hvalue hne
    · rw [FieldSpelling.name_upToNumbers, ← hf.name] at hne
      rw [readMembers_of_fresh hne] at hr
      obtain ⟨hslot, hothers⟩ := finish_of_map hr
      have hname : (first r.1).name = field.name := (hf.names r.1).trans hf.name.symm
      rw [← hname] at hne
      exact (ih hrest hnumbers hothers).leave (hf.missing hslot) hne

/-- By induction on the fields: each has taken the first item that was left, or has its default at
the end of the list. -/
theorem Exact.readItems (h : fields.Exact p forms parts) {js : List Json} {wanted : String}
    {position : Nat} {left : List Document}
    (hjs : SpelledItems (forms.map FieldSpelling.upToNumbers) js) (hnumbers : ItemsNumbers p js)
    (hr : fields.readItems wanted stage levels .closed position (ofItems js) = .ok (r, left)) :
    SpelledItems (parts r) js := by
  induction h generalizing js position left with
  | done =>
    cases hjs
    exact .cut fun _ hf => nomatch hf
  | @field α σ ρ field others f forms first rest hf fresh hs ih =>
    cases hjs with
    | cut hcut =>
      rw [ofItems, Fields.readItems] at hr
      obtain ⟨-, -, hr⟩ := bind_eq_ok_iff.1 hr
      split at hr
      · cases hr
      · rename_i a ha
        obtain ⟨⟨r, left⟩, hrest, hr⟩ := bind_eq_ok_iff.1 hr
        cases hr
        have hcuts := ih (.cut (List.forall_mem_cons.1 hcut).2) hnumbers hrest
        exact .cut (List.forall_mem_cons.2 ⟨hf.cut ha, hcuts.cuttable⟩)
    | item hj hjs =>
      rw [ofItems, Fields.readItems] at hr
      obtain ⟨a, ha, hr⟩ := bind_eq_ok_iff.1 hr
      obtain ⟨⟨r, left⟩, hrest, hr⟩ := bind_eq_ok_iff.1 hr
      cases hr
      exact .item (hf.value hj hnumbers.1 ha) (ih hjs hnumbers.2 hrest)

theorem Exact.ofObject (h : fields.Exact p forms parts) {ms : List (String × Json)}
    (hms : SpelledMembers Anything (forms.map FieldSpelling.upToNumbers) ms)
    (hnumbers : MembersNumbers p ms)
    (hr : fields.ofObject stage levels (ofMembers ms) .closed = .ok r) :
    SpelledMembers (Numbers p) (parts r) ms :=
  h.readMembers hms (membersNumbers_iff.1 hnumbers) hr

theorem Exact.ofList (h : fields.Exact p forms parts) {js : List Json} {wanted : String}
    (hjs : SpelledItems (forms.map FieldSpelling.upToNumbers) js) (hnumbers : ItemsNumbers p js)
    (hr : fields.ofList wanted stage levels (ofItems js) .closed = .ok r) :
    SpelledItems (parts r) js := by
  obtain ⟨⟨r', left⟩, hread, hr⟩ := bind_eq_ok_iff.1 hr
  obtain ⟨-, -, hr⟩ := bind_eq_ok_iff.1 hr
  cases hr
  exact h.readItems hjs hnumbers hread

end Fields

namespace Decoder

variable {fields : Fields σ ρ} {parts : ρ → List FieldSpelling} {wanted : String} {r : ρ}

theorem spelled_of_object {forms : List FieldSpelling}
    (hr : object wanted fields stage levels (.ofJson j) = .ok r)
    (hj : UpToNumbers (SpelledObject extra forms) j) (hnumbers : j.Numbers p)
    (h : fields.Exact p forms parts) : SpelledObject (Numbers p) (parts r) j := by
  obtain ⟨ms, rfl, hms⟩ := hj.object
  obtain ⟨inner, -, hr⟩ := within_eq_ok_iff.1 hr
  exact ⟨ms, rfl, h.ofObject hms hnumbers hr⟩

theorem exact_record (wanted : String) {make : ρ → α} {forms spelled : α → List FieldSpelling}
    (h : ∀ a, fields.Exact p (forms a) parts) (hmake : ∀ r, spelled (make r) = parts r) :
    ((record wanted fields).map make).Exact p (fun a => SpelledRecord extra (forms a))
      fun a => SpelledRecord (Numbers p) (spelled a) where
  spells {a₀ j} hj hnumbers {stage levels a} ha := by
    obtain ⟨r, hr, rfl⟩ := map_eq_ok_iff.1 ha
    rw [hmake]
    rcases hj.record with ⟨ms, rfl, hms⟩ | ⟨js, rfl, hjs⟩
    · obtain ⟨inner, -, hr⟩ := within_eq_ok_iff.1 hr
      exact .inl ⟨ms, rfl, (h a₀).ofObject hms hnumbers hr⟩
    · obtain ⟨inner, -, hr⟩ := within_eq_ok_iff.1 hr
      exact .inr ⟨js, rfl, (h a₀).ofList hjs hnumbers hr⟩

end Decoder

/-! What is read whole. -/

/-- The first decoder that accepts a value has read it whole. -/
theorem Decoder.firstOf_eq_ok {name : String} {decoders : List (Decoder α)} {a : α} (h : j.Valid)
    (ha : firstOf name decoders stage levels (.ofJson j) = .ok a) :
    j.Readable ∧ ∃ decode ∈ decoders, decode .whole levels (.ofJson j) = .ok a := by
  obtain ⟨d, hd, ha⟩ := bind_eq_ok_iff.1 ha
  obtain ⟨hread, rfl⟩ := Document.readWhole_eq_ok h hd
  refine ⟨hread, ?_⟩
  split at ha
  · rename_i a' hfound
    cases ha
    obtain ⟨decode, hmem, hdecode⟩ := List.exists_of_findSome?_eq_some hfound
    refine ⟨decode, hmem, ?_⟩
    cases hr : decode .whole levels (.ofJson j) with
    | error e =>
      rw [hr] at hdecode
      cases hdecode
    | ok a =>
      rw [hr] at hdecode
      cases hdecode
      rfl
  · cases ha

/-! Values of several forms. -/

/-- What the form takes, without the tag, is spelled as a value of that tag. -/
structure Variant.Exact (v : Variant α) (name : String) (forms : List FieldSpelling)
    (tagOf : α → String) (spelled : α → List FieldSpelling) : Prop where
  object : ∀ {levels ms a}, SpelledMembers Anything (forms.map FieldSpelling.upToNumbers) ms →
    MembersReadable ms → v.ofObject levels (ofMembers ms) = .ok a →
    tagOf a = name ∧ SpelledMembers Readable (spelled a) ms
  list : ∀ {levels js a}, SpelledItems (forms.map FieldSpelling.upToNumbers) js →
    ItemsReadable js → v.ofList levels (ofItems js) = .ok a →
    tagOf a = name ∧ SpelledItems (spelled a) js

namespace Variant

variable {tag name : String} {tagOf : α → String} {spelled : α → List FieldSpelling}

theorem exact_record (wanted : String) {fields : Fields σ ρ} {forms : List FieldSpelling}
    {parts : ρ → List FieldSpelling} {make : ρ → α} (h : fields.Exact Literal.Readable forms parts)
    (hmake : ∀ r, tagOf (make r) = name ∧ spelled (make r) = parts r) :
    (Variant.record wanted fields make).Exact name forms tagOf spelled where
  object hms hnumbers ha := by
    obtain ⟨r, hr, rfl⟩ := map_eq_ok_iff.1 ha
    rw [(hmake r).2]
    exact ⟨(hmake r).1, h.ofObject hms hnumbers hr⟩
  list hjs hnumbers ha := by
    obtain ⟨r, hr, rfl⟩ := map_eq_ok_iff.1 ha
    rw [(hmake r).2]
    exact ⟨(hmake r).1, h.ofList hjs hnumbers hr⟩

theorem exact_bare {a : α} (htag : tagOf a = name) (hspelled : spelled a = []) :
    (Variant.bare a).Exact name [] tagOf spelled where
  object hms hnumbers ha := by
    cases ha
    rw [hspelled]
    exact ⟨htag, spelledMembers_nil (membersNumbers_iff.1 hnumbers)⟩
  list hjs _ ha := by
    obtain ⟨-, -, rfl⟩ := map_eq_ok_iff.1 ha
    rw [hspelled]
    exact ⟨htag, hjs⟩

variable {variants : List (String × Variant α)}

/-- The members beside the tag have been read whole. -/
theorem readable_of_splitTag {ms : List (String × Json)} {v? : Option (Variant α)}
    {r : Option (Variant α) × List (Key × Document)} (h : MembersNumbers Literal.WellFormed ms)
    (hr : splitTag tag variants stage levels (ofMembers ms) v? = .ok r) :
    ∀ m ∈ ms, m.1 ≠ tag → m.2.Readable := by
  induction ms generalizing v? r with
  | nil => exact fun m hm => nomatch hm
  | cons m ms ih =>
    by_cases hkey : m.1 = tag
    · obtain ⟨_, hname, hr⟩ := bind_eq_ok_iff.1 hr
      cases hname
      rw [if_pos hkey] at hr
      split at hr
      · cases hr
      · obtain ⟨v, -, hr⟩ := bind_eq_ok_iff.1 hr
        exact List.forall_mem_cons.2 ⟨fun hne => absurd hkey hne, ih h.2 hr⟩
    · rw [splitTag_of_ne hkey] at hr
      obtain ⟨d, hd, hr⟩ := bind_eq_ok_iff.1 hr
      obtain ⟨r, hrest, -⟩ := bind_eq_ok_iff.1 hr
      exact List.forall_mem_cons.2 ⟨fun _ => (Document.readWhole_eq_ok h.1 hd).1, ih h.2 hrest⟩

end Variant

namespace Decoder

variable {type tag content name : String}

theorem exact_tagged (tagOf : α → String) (spelled : α → List FieldSpelling)
    {variants : List (String × Variant α)} {v : Variant α} {forms : List FieldSpelling} {a : α}
    (ha : tagged type tag variants stage levels (.ofJson j) = .ok a)
    (hj : UpToNumbers (SpelledRecord extra (.required tag (Written .text name) :: forms)) j)
    (hvalid : j.Valid) (hv : variants.lookup name = some v) (h : v.Exact name forms tagOf spelled)
    (fresh : ∀ f ∈ forms, tag ≠ f.name) :
    SpelledRecord Readable (.required tag (Written .text (tagOf a)) :: spelled a) j := by
  have hfresh : ∀ f ∈ forms.map FieldSpelling.upToNumbers, tag ≠ f.name :=
    List.forall_mem_map.2 fresh
  rcases hj.record with ⟨ms, rfl, hms⟩ | ⟨js, rfl, hjs⟩
  · have htagged : SpelledMembers Anything (.required tag (UpToNumbers (Written .text name)) ::
        forms.map FieldSpelling.upToNumbers) ms := hms
    obtain ⟨before, j, after, rfl, hname, hne, hrest⟩ := htagged.exists_required hfresh
    cases hname.text
    obtain ⟨inner, -, ha⟩ := within_eq_ok_iff.1 ha
    obtain ⟨⟨v?, others⟩, hsplit, ha⟩ := bind_eq_ok_iff.1 ha
    have hread : MembersReadable (before ++ after) := membersNumbers_iff.2 fun m hm =>
      Variant.readable_of_splitTag hvalid hsplit m
        (List.perm_middle.mem_iff.2 (List.mem_cons_of_mem _ hm)) (hne m hm).symm
    rw [Variant.splitTag_among hv before hread (fun m hm => (hne m hm).symm)] at hsplit
    cases eq_of_limited hsplit
    obtain ⟨htag, hspelled⟩ := h.object hrest hread ha
    have hwritten : Written .text (tagOf a) (.text name) := congrArg Json.text htag.symm
    exact .inl ⟨_, rfl, hspelled.keep hwritten hne⟩
  · cases hjs with
    | cut hcut => exact (hcut _ List.mem_cons_self).elim
    | @item _ _ j js hname hjs =>
      cases UpToNumbers.text hname
      obtain ⟨inner, -, ha⟩ := within_eq_ok_iff.1 ha
      obtain ⟨v', hv', ha⟩ := bind_eq_ok_iff.1 ha
      obtain ⟨items, hitems, ha⟩ := bind_eq_ok_iff.1 ha
      obtain ⟨hread, rfl⟩ := Document.readWhole_items_eq_ok hvalid.2 hitems
      cases hv'.symm.trans (choose_of_lookup hv)
      obtain ⟨htag, hspelled⟩ := h.list hjs hread ha
      exact .inr ⟨_, rfl, .item (congrArg Json.text htag.symm) hspelled⟩

/-! A tag beside the content. -/

variable {alternatives : List (String × Alternative α)} {a : α} {direct whole : Json → Prop}
  {inner : Nat}

theorem isOther_of_numbers {others ms : List (String × Json)} (hnumbers : MembersNumbers p ms)
    (hmem : ∀ m ∈ others, m ∈ ms) (h : ∀ m ∈ others, IsOther Anything tag content m) :
    ∀ m ∈ others, IsOther (Numbers p) tag content m := by
  intro m hm
  obtain ⟨htag, hcontent, -⟩ := h m hm
  exact ⟨htag, hcontent, membersNumbers_iff.1 hnumbers m (hmem m hm)⟩

/-- The content is exact where it is read as it comes and where it is read whole. -/
theorem exact_content {decode : Decoder β} {make : β → α} {direct' whole' : β → Json → Prop}
    (hne : content ≠ tag) (hform : alternatives.lookup name = some (.content decode make))
    (hp : ∀ l, p l → l.WellFormed)
    (h : SpelledAdjacent Anything tag content name direct whole j) (hnumbers : j.Numbers p)
    (hdirect : ∀ c b, direct c → c.Numbers p → decode stage inner (.ofJson c) = .ok b → direct' b c)
    (hwhole : ∀ c b, whole c → c.Readable → decode .whole inner (.ofJson c) = .ok b → whole' b c)
    (ha : adjacent type tag content alternatives stage (inner + 1) (.ofJson j) = .ok a) :
    ∃ b, make b = a ∧ SpelledAdjacent (Numbers p) tag content name (direct' b) (whole' b) j := by
  cases h with
  | @tagFirst before between after c hc hothers =>
    rw [adjacent_tagFirst type hne hform hothers] at ha
    obtain ⟨b, hb, rfl⟩ := map_eq_ok_iff.1 ha
    have hcontent := membersNumbers_iff.1 hnumbers (content, c) (mem_two.2 (.inr (.inl rfl)))
    exact ⟨b, rfl, .tagFirst (hdirect c b hc hcontent hb)
      (isOther_of_numbers hnumbers (fun m hm => mem_two.2 (.inr (.inr hm))) hothers)⟩
  | @contentFirst before between after c hc hothers =>
    rw [adjacent_contentFirst type hne hform hothers] at ha
    have hcontent := membersNumbers_iff.1 hnumbers (content, c) (mem_two.2 (.inl rfl))
    obtain ⟨d, hd, ha⟩ := bind_eq_ok_iff.1 ha
    obtain ⟨hread, rfl⟩ := Document.readWhole_eq_ok (hcontent.mono hp) hd
    obtain ⟨b, hb, rfl⟩ := map_eq_ok_iff.1 ha
    exact ⟨b, rfl, .contentFirst (hwhole c b hc hread hb)
      (isOther_of_numbers hnumbers (fun m hm => mem_two.2 (.inr (.inr hm))) hothers)⟩
  | @list c hc =>
    rw [adjacent_list type hform] at ha
    obtain ⟨b, hb, rfl⟩ := map_eq_ok_iff.1 ha
    exact ⟨b, rfl, .list (hdirect c b hc hnumbers.2.1 hb)⟩

theorem exact_bare {wanted : String} {b : α} (hne : content ≠ tag)
    (hform : alternatives.lookup name = some (.bare wanted b))
    (h : SpelledBare Anything tag content name j) (hnumbers : j.Numbers p)
    (ha : adjacent type tag content alternatives stage (inner + 1) (.ofJson j) = .ok a) :
    b = a ∧ SpelledBare (Numbers p) tag content name j := by
  cases h with
  | @alone before after hothers =>
    rw [adjacent_alone type hform hothers] at ha
    have hmem : ∀ m ∈ before ++ after, m ∈ before ++ (tag, .text name) :: after :=
      fun m hm => List.perm_middle.mem_iff.2 (List.mem_cons_of_mem _ hm)
    exact ⟨Except.ok.inj ha, .alone (isOther_of_numbers hnumbers hmem hothers)⟩
  | null h =>
    cases h with
    | tagFirst hc hothers =>
      cases hc
      rw [adjacent_tagFirst type hne hform hothers] at ha
      exact ⟨Except.ok.inj ha, .null (.tagFirst rfl
        (isOther_of_numbers hnumbers (fun m hm => mem_two.2 (.inr (.inr hm))) hothers))⟩
    | contentFirst hc hothers =>
      cases hc
      rw [adjacent_contentFirst type hne hform hothers] at ha
      obtain ⟨d, hd, ha⟩ := bind_eq_ok_iff.1 ha
      obtain ⟨-, rfl⟩ := Document.readWhole_eq_ok (j := .null) trivial hd
      exact ⟨Except.ok.inj ha, .null (.contentFirst rfl
        (isOther_of_numbers hnumbers (fun m hm => mem_two.2 (.inr (.inr hm))) hothers))⟩
    | list hc =>
      cases hc
      rw [adjacent_list type hform] at ha
      exact ⟨Except.ok.inj ha, .null (.list rfl)⟩

end Decoder

end MethodIR.Json
