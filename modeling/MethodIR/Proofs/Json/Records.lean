import MethodIR.Proofs.Json.Nesting

/-!
Records: an object with one member for each field is read field by field, and what was read of a
field has come from its decoder.
-/
namespace MethodIR.Json

open Document (ofJson ofMembers)

namespace Fields

variable {α σ ρ : Type} {f : RecordField α} {others : Fields σ ρ} {stage : Stage} {levels : Nat}

theorem put_of_ne (others : Fields σ ρ) (stage : Stage) (levels : Nat) {key : String}
    (h : f.name ≠ key) (d : Document) (slot : Option α) (slots : σ) :
    (field f others).put stage levels key d (slot, slots) =
      (others.put stage levels key d slots).map fun r => r.map fun slots => (slot, slots) :=
  if_neg h

theorem put_of_eq (d : Document) (slots : σ) :
    (field f others).put stage levels f.name d (none, slots) =
      some ((f.decode stage levels d).map fun a => (some a, slots)) :=
  if_pos rfl

theorem readMembers_name (fields : Fields σ ρ) (stage : Stage) (levels : Nat) (key : String)
    (d : Document) (members : List (Key × Document)) (slots : σ) :
    fields.readMembers stage levels ((.name key, d) :: members) slots =
      match fields.put stage levels key d slots with
      | none => ofFault d.skip >>= fun _ => fields.readMembers stage levels members slots
      | some read => read >>= fields.readMembers stage levels members := rfl

/-- The members are the fields in their order, each of which is read as the value in the record. -/
inductive Reads (levels : Nat) :
    {σ ρ : Type} → Fields σ ρ → List (String × Json) → ρ → Prop where
  | done : Reads levels .done [] ()
  | field {α σ ρ : Type} {f : RecordField α} {others : Fields σ ρ} {j : Json} {a : α}
      {ms : List (String × Json)} {r : ρ} (hj : j.Readable) (h : f.decode.Reads levels j a)
      (hs : Reads levels others ms r) (fresh : ∀ m ∈ ms, f.name ≠ m.1) :
    Reads levels (.field f others) ((f.name, j) :: ms) (a, r)

theorem Reads.readable {fields : Fields σ ρ} {ms : List (String × Json)} {r : ρ}
    (h : fields.Reads levels ms r) : MembersReadable ms := by
  induction h with
  | done => trivial
  | field hj _ _ _ ih => exact ⟨hj, ih⟩

/-- A member of another name does not touch a field, if those after it do what they would do for the
other fields. -/
theorem readMembers_other {key : String} {members members' : List (Key × Document)}
    {slot slot' : Option α} (h : f.name ≠ key) (d : Document)
    (hrest : ∀ slots, (field f others).readMembers stage levels members (slot, slots) =
      (others.readMembers stage levels members' slots).map (slot', ·)) (slots : σ) :
    (field f others).readMembers stage levels ((.name key, d) :: members) (slot, slots) =
      (others.readMembers stage levels ((.name key, d) :: members') slots).map (slot', ·) := by
  rw [readMembers_name, readMembers_name, put_of_ne others stage levels h d slot slots]
  cases others.put stage levels key d slots with
  | none =>
    cases hskip : ofFault d.skip with
    | error e => rfl
    | ok u => exact hrest slots
  | some r =>
    cases r with
    | error e => rfl
    | ok slots => exact hrest slots

/-- Members of other names leave a field as it is. -/
theorem readMembers_of_fresh {ms : List (String × Json)} (fresh : ∀ m ∈ ms, f.name ≠ m.1)
    (slot : Option α) (slots : σ) :
    (field f others).readMembers stage levels (ofMembers ms) (slot, slots) =
      (others.readMembers stage levels (ofMembers ms) slots).map (slot, ·) := by
  induction ms generalizing slots with
  | nil => rfl
  | cons m ms ih =>
    exact readMembers_other (fresh m List.mem_cons_self) (ofJson m.2)
      (ih fun m hm => fresh m (List.mem_cons_of_mem _ hm)) slots

/-- A field is complete with what it has read or with its default. -/
theorem map_bind_finish {slot : Option α} {a : α} (h : (slot <|> f.missing) = some a)
    (x : Except Error σ) :
    (x.map (slot, ·) >>= (field f others).finish) = (x >>= others.finish).map (a, ·) := by
  cases x with
  | error e => rfl
  | ok slots =>
    change (field f others).finish (slot, slots) = (others.finish slots).map (a, ·)
    rw [finish, h]

/-- One field after another is read, and then the record is complete. -/
theorem Reads.readMembers {fields : Fields σ ρ} {ms : List (String × Json)} {r : ρ}
    (h : fields.Reads levels ms r) (stage : Stage) :
    (fields.readMembers stage levels (ofMembers ms) fields.empty >>= fields.finish) =
      limited (.fault .tooDeep) levels (membersDepth ms) r := by
  induction h with
  | done => exact (limited_flat _ levels _).symm
  | @field α σ ρ f others j a ms r hj h hs fresh ih =>
    rw [ofMembers, readMembers_name, empty, put_of_eq, h stage, limited_map, membersDepth]
    change ((limited _ _ _ _ >>= _) >>= _) = _
    rw [bind_assoc]
    refine limited_bind ?_
    rw [readMembers_of_fresh fresh, map_bind_finish rfl, ih, limited_map]

theorem Reads.ofObject {fields : Fields σ ρ} {ms : List (String × Json)} {r : ρ}
    (h : fields.Reads levels ms r) (stage : Stage) :
    fields.ofObject stage levels (ofMembers ms) .closed =
      limited (.fault .tooDeep) levels (membersDepth ms) r := h.readMembers stage

/-- Each field of the record was read by its decoder or has a default. -/
def Decoded (levels : Nat) : {σ ρ : Type} → Fields σ ρ → ρ → Prop
  | _, _, .done, _ => True
  | _, _, .field f others, (a, r) =>
    ((∃ stage d, f.decode stage levels d = .ok a) ∨ f.missing = some a ∨ f.cut = some a) ∧
      others.Decoded levels r

/-- Each slot that is filled was filled by the decoder of its field. -/
def Filled (levels : Nat) : {σ ρ : Type} → Fields σ ρ → σ → Prop
  | _, _, .done, _ => True
  | _, _, .field f others, (slot, slots) =>
    (∀ a, slot = some a → ∃ stage d, f.decode stage levels d = .ok a) ∧ others.Filled levels slots

theorem filled_empty (levels : Nat) (fields : Fields σ ρ) : fields.Filled levels fields.empty := by
  induction fields with
  | done => trivial
  | field f others ih => exact And.intro (fun _ h => nomatch h) ih

theorem Filled.put {fields : Fields σ ρ} {slots slots' : σ} {key : String} {d : Document}
    (h : fields.Filled levels slots)
    (hput : fields.put stage levels key d slots = some (.ok slots')) :
    fields.Filled levels slots' := by
  induction fields with
  | done => cases hput
  | field f others ih =>
    obtain ⟨slot, slots⟩ := slots
    by_cases hkey : f.name = key
    · subst hkey
      cases slot with
      | some a => cases hput.symm.trans (if_pos rfl)
      | none =>
        rw [put_of_eq, Option.some.injEq] at hput
        obtain ⟨a, ha, rfl⟩ := map_eq_ok_iff.1 hput
        refine And.intro (fun a' h' => ?_) h.2
        cases h'
        exact ⟨stage, d, ha⟩
    · rw [put_of_ne others stage levels hkey, Option.map_eq_some_iff] at hput
      obtain ⟨r, hr, hput⟩ := hput
      obtain ⟨slots'', rfl, rfl⟩ := map_eq_ok_iff.1 hput
      exact ⟨h.1, ih h.2 hr⟩

theorem Filled.readMembers {fields : Fields σ ρ} {slots slots' : σ}
    {members : List (Key × Document)} (h : fields.Filled levels slots)
    (hread : fields.readMembers stage levels members slots = .ok slots') :
    fields.Filled levels slots' := by
  induction members generalizing slots with
  | nil =>
    cases hread
    exact h
  | cons m members ih =>
    obtain ⟨key, d⟩ := m
    obtain ⟨name, -, hread⟩ := bind_eq_ok_iff.1 hread
    split at hread
    · obtain ⟨-, -, hread⟩ := bind_eq_ok_iff.1 hread
      exact ih h hread
    · rename_i hput
      obtain ⟨slots'', rfl, hread⟩ := bind_eq_ok_iff.1 hread
      exact ih (h.put hput) hread

theorem Filled.finish {fields : Fields σ ρ} {slots : σ} {r : ρ} (h : fields.Filled levels slots)
    (hr : fields.finish slots = .ok r) : fields.Decoded levels r := by
  induction fields with
  | done => trivial
  | field f others ih =>
    obtain ⟨slot, slots⟩ := slots
    rw [Fields.finish] at hr
    split at hr
    · cases hr
    · rename_i a ha
      obtain ⟨r, hrest, rfl⟩ := map_eq_ok_iff.1 hr
      refine ⟨?_, ih h.2 hrest⟩
      cases slot with
      | none => exact .inr (.inl ha)
      | some a' =>
        cases ha
        exact .inl (h.1 a rfl)

theorem decoded_of_ofObject {fields : Fields σ ρ} {members : List (Key × Document)}
    {ending : ObjectEnd} {r : ρ} (h : fields.ofObject stage levels members ending = .ok r) :
    fields.Decoded levels r := by
  obtain ⟨slots, hread, h⟩ := bind_eq_ok_iff.1 h
  obtain ⟨-, -, h⟩ := bind_eq_ok_iff.1 h
  exact ((fields.filled_empty levels).readMembers hread).finish h

theorem decoded_of_readItems {fields : Fields σ ρ} {wanted : String} {ending : ListEnd}
    {position : Nat} {items left : List Document} {r : ρ}
    (h : fields.readItems wanted stage levels ending position items = .ok (r, left)) :
    fields.Decoded levels r := by
  induction fields generalizing position items left with
  | done => trivial
  | field f others ih =>
    cases items with
    | nil =>
      obtain ⟨-, -, h⟩ := bind_eq_ok_iff.1 h
      split at h
      · cases h
      · rename_i a ha
        obtain ⟨⟨r, left⟩, hrest, h⟩ := bind_eq_ok_iff.1 h
        cases h
        exact ⟨.inr (.inr ha), ih hrest⟩
    | cons d items =>
      obtain ⟨a, ha, h⟩ := bind_eq_ok_iff.1 h
      obtain ⟨⟨r, left⟩, hrest, h⟩ := bind_eq_ok_iff.1 h
      cases h
      exact ⟨.inl ⟨stage, d, ha⟩, ih hrest⟩

theorem decoded_of_ofList {fields : Fields σ ρ} {wanted : String} {items : List Document}
    {ending : ListEnd} {r : ρ} (h : fields.ofList wanted stage levels items ending = .ok r) :
    fields.Decoded levels r := by
  obtain ⟨⟨r, left⟩, hread, h⟩ := bind_eq_ok_iff.1 h
  obtain ⟨-, -, h⟩ := bind_eq_ok_iff.1 h
  cases h
  exact decoded_of_readItems hread

/-- At a limit, the fields are read from the members that `write` writes, and hold nothing that
`write` writes deeper than the limit. -/
structure Inverts (fields : Fields σ ρ) (levels : Nat) (write : ρ → List (String × Json)) :
    Prop where
  reads : ∀ r, fields.Reads levels (write r) r
  bounded : ∀ {r}, fields.Decoded levels r → membersDepth (write r) ≤ levels

theorem inverts_done (levels : Nat) : done.Inverts levels fun _ => [] where
  reads _ := .done
  bounded _ := Nat.zero_le levels

/-- A required field has no default, so what it holds was read. -/
theorem inverts_required (name : String) {decode : Decoder α} {encode : α → Json}
    {write : ρ → List (String × Json)} (h : decode.Inverts levels encode)
    (hs : others.Inverts levels write) (fresh : ∀ r, ∀ m ∈ write r, name ≠ m.1) :
    (field (.required name decode) others).Inverts levels fun r =>
      (name, encode r.1) :: write r.2 where
  reads r := .field (h.readable r.1) (h.reads r.1) (hs.reads r.2) (fresh r.2)
  bounded {r} hr := by
    obtain ⟨⟨stage, d, hd⟩ | hmissing | hcut, hrest⟩ := hr
    · exact Nat.max_le.2 ⟨h.bounded hd, hs.bounded hrest⟩
    · cases hmissing
    · cases hcut

/-- A field that may be absent or null is written as null if there is nothing in it. -/
theorem inverts_optional (name : String) {decode : Decoder α} {encode : α → Json}
    {write : ρ → List (String × Json)} (h : decode.Inverts levels encode)
    (hne : ∀ a, encode a ≠ .null) (hs : others.Inverts levels write)
    (fresh : ∀ r, ∀ m ∈ write r, name ≠ m.1) :
    (field (.optional name decode) others).Inverts levels fun r =>
      (name, Json.optional encode r.1) :: write r.2 where
  reads r := .field ((Decoder.inverts_nullable h hne).readable r.1)
    ((Decoder.inverts_nullable h hne).reads r.1) (hs.reads r.2) (fresh r.2)
  bounded {r} hr := by
    obtain ⟨a?, r⟩ := r
    obtain ⟨⟨stage, d, hd⟩ | hmissing | hcut, hrest⟩ := hr
    · exact Nat.max_le.2 ⟨(Decoder.inverts_nullable h hne).bounded hd, hs.bounded hrest⟩
    · cases hmissing
      exact Nat.max_le.2 ⟨Nat.zero_le levels, hs.bounded hrest⟩
    · cases hcut

end Fields

/-- A record is written as the object of its fields. -/
theorem Decoder.inverts_record {σ ρ : Type} (wanted : String) {fields : Fields σ ρ}
    {write : ρ → List (String × Json)} (h : ∀ levels, fields.Inverts levels write) (levels : Nat) :
    (Decoder.record wanted fields).Inverts levels fun r => .object (write r) where
  readable r := ((h levels).reads r).readable
  reads r stage := by
    rw [depth, ← within_limited]
    simp only [← ((h _).reads r).ofObject stage]
    rfl
  bounded {stage d r} hr := by
    unfold record at hr
    split at hr
    · obtain ⟨inner, rfl, hr⟩ := within_eq_ok_iff.1 hr
      exact Nat.succ_le_succ ((h inner).bounded (Fields.decoded_of_ofList hr))
    · obtain ⟨inner, rfl, hr⟩ := within_eq_ok_iff.1 hr
      exact Nat.succ_le_succ ((h inner).bounded (Fields.decoded_of_ofObject hr))
    · cases hr

end MethodIR.Json
