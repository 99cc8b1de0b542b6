import Mathlib.Data.List.Defs
import MethodIR.Proofs.Json.Layout

/-!
Spellings. The same value can be written in many ways: with its members in any order, among members
that are no fields of it, without those that have their default, or as the list of its fields. What
may be written is said here without decoders.
-/
namespace MethodIR.Json

variable {α : Type} {extra : Json → Prop} {spelling : α → Json → Prop}

/-- What is written in one way only. -/
def Written (encode : α → Json) (a : α) (j : Json) : Prop := j = encode a

/-- Numbers are written as the integers that they are. -/
def u32 (n : UInt32) : Json := .nat n.toNat

def i64 (n : Int64) : Json := .int n.toInt

/-- Nothing at all is spelled as null. -/
def SpelledOption (spelling : α → Json → Prop) : Option α → Json → Prop
  | none, j => j = .null
  | some a, j => spelling a j

def SpelledList (spelling : α → Json → Prop) (as : List α) (j : Json) : Prop :=
  ∃ js, j = .list js ∧ List.Forall₂ spelling as js

/-- How one field of a record is spelled: what may be written for the value in it, whether an object
may do without it, and whether a list may end before it. -/
structure FieldSpelling where
  name : String
  value : Json → Prop
  omissible : Prop
  cuttable : Prop

namespace FieldSpelling

def required (name : String) (value : Json → Prop) : FieldSpelling := ⟨name, value, False, False⟩

def optional (name : String) (spelling : α → Json → Prop) (a? : Option α) : FieldSpelling :=
  ⟨name, SpelledOption spelling a?, a? = none, False⟩

def withDefault (name : String) (spelling : α → Json → Prop) (default a : α) : FieldSpelling :=
  ⟨name, spelling a, a = default, a = default⟩

@[simp] theorem name_required (name : String) (value : Json → Prop) :
    (required name value).name = name := rfl

@[simp] theorem name_optional (name : String) (spelling : α → Json → Prop) (a? : Option α) :
    (optional name spelling a?).name = name := rfl

@[simp] theorem name_withDefault (name : String) (spelling : α → Json → Prop) (default a : α) :
    (withDefault name spelling default a).name = name := rfl

end FieldSpelling

variable {f : FieldSpelling} {fields : List FieldSpelling}

/-- Members for the fields in their order, without some that may be left out. -/
inductive Kept : List FieldSpelling → List (String × Json) → Prop where
  | nil : Kept [] []
  | keep {f : FieldSpelling} {fields : List FieldSpelling} {j : Json} {ms : List (String × Json)}
      (h : f.value j) (hs : Kept fields ms) : Kept (f :: fields) ((f.name, j) :: ms)
  | leave {f : FieldSpelling} {fields : List FieldSpelling} {ms : List (String × Json)}
      (h : f.omissible) (hs : Kept fields ms) : Kept (f :: fields) ms

/-- Members for the fields and members of other names with values that satisfy `extra`, in any
order. -/
def SpelledMembers (extra : Json → Prop) (fields : List FieldSpelling)
    (ms : List (String × Json)) : Prop :=
  ∃ kept others, Kept fields kept ∧ ms.Perm (kept ++ others) ∧
    ∀ m ∈ others, (∀ f ∈ fields, f.name ≠ m.1) ∧ extra m.2

/-- Items for the fields in their order, up to some that may be cut off. -/
inductive SpelledItems : List FieldSpelling → List Json → Prop where
  | cut {fields : List FieldSpelling} (h : ∀ f ∈ fields, f.cuttable) : SpelledItems fields []
  | item {f : FieldSpelling} {fields : List FieldSpelling} {j : Json} {js : List Json}
      (h : f.value j) (hs : SpelledItems fields js) : SpelledItems (f :: fields) (j :: js)

def SpelledObject (extra : Json → Prop) (fields : List FieldSpelling) (j : Json) : Prop :=
  ∃ ms, j = .object ms ∧ SpelledMembers extra fields ms

/-- A record is spelled as an object or as a list. -/
def SpelledRecord (extra : Json → Prop) (fields : List FieldSpelling) (j : Json) : Prop :=
  SpelledObject extra fields j ∨ ∃ js, j = .list js ∧ SpelledItems fields js

theorem spelledList_map {encode : α → Json} (h : ∀ a, spelling a (encode a)) (as : List α) :
    SpelledList spelling as (.list (as.map encode)) := by
  refine ⟨as.map encode, rfl, ?_⟩
  induction as with
  | nil => exact .nil
  | cons a as ih => exact .cons (h a) ih

theorem spelledOption_optional {encode : α → Json} (h : ∀ a, spelling a (encode a))
    (a? : Option α) : SpelledOption spelling a? (Json.optional encode a?) := by
  cases a? with
  | none => rfl
  | some a => exact h a

/-! What is written for the fields. -/

theorem Kept.spelledObject_of_perm {kept ms : List (String × Json)} (h : Kept fields kept)
    (hperm : ms.Perm kept) : SpelledObject extra fields (.object ms) := by
  refine ⟨ms, rfl, kept, [], h, ?_, fun m hm => nomatch hm⟩
  rwa [List.append_nil]

theorem Kept.spelledObject {ms : List (String × Json)} (h : Kept fields ms) :
    SpelledObject extra fields (.object ms) := h.spelledObject_of_perm (.refl ms)

theorem Kept.spelledRecord {ms : List (String × Json)} (h : Kept fields ms) :
    SpelledRecord extra fields (.object ms) := .inl h.spelledObject

theorem Kept.exists_field {ms : List (String × Json)} (h : Kept fields ms) {m : String × Json}
    (hm : m ∈ ms) : ∃ f ∈ fields, f.name = m.1 ∧ f.value m.2 := by
  induction h with
  | nil => cases hm
  | keep hj hs ih =>
    rcases List.mem_cons.1 hm with rfl | hm
    · exact ⟨_, List.mem_cons_self, rfl, hj⟩
    · obtain ⟨f, hf, hfield⟩ := ih hm
      exact ⟨f, List.mem_cons_of_mem _ hf, hfield⟩
  | leave _ hs ih =>
    obtain ⟨f, hf, hfield⟩ := ih hm
    exact ⟨f, List.mem_cons_of_mem _ hf, hfield⟩

theorem SpelledMembers.value_or_extra {ms : List (String × Json)}
    (h : SpelledMembers extra fields ms) {m : String × Json} (hm : m ∈ ms) :
    (∃ f ∈ fields, f.name = m.1 ∧ f.value m.2) ∨ extra m.2 := by
  obtain ⟨kept, others, hkept, hperm, hothers⟩ := h
  rcases List.mem_append.1 (hperm.mem_iff.1 hm) with hm | hm
  · exact .inl (hkept.exists_field hm)
  · exact .inr (hothers m hm).2

theorem SpelledItems.exists_field {js : List Json} (h : SpelledItems fields js) {j : Json}
    (hj : j ∈ js) : ∃ f ∈ fields, f.value j := by
  induction h with
  | cut _ => cases hj
  | item hvalue hs ih =>
    rcases List.mem_cons.1 hj with rfl | hj
    · exact ⟨_, List.mem_cons_self, hvalue⟩
    · obtain ⟨f, hf, hfield⟩ := ih hj
      exact ⟨f, List.mem_cons_of_mem _ hf, hfield⟩

theorem SpelledItems.cuttable (h : SpelledItems fields []) : ∀ f ∈ fields, f.cuttable := by
  cases h with
  | cut h => exact h

section Numbers

variable {p : Literal → Prop} {j : Json}

theorem SpelledObject.numbers (h : SpelledObject extra fields j)
    (hfields : ∀ f ∈ fields, ∀ j, f.value j → j.Numbers p) (hextra : ∀ j, extra j → j.Numbers p) :
    j.Numbers p := by
  obtain ⟨ms, rfl, hms⟩ := h
  refine membersNumbers_iff.2 fun m hm => ?_
  rcases hms.value_or_extra hm with ⟨f, hf, -, hvalue⟩ | hvalue
  · exact hfields f hf _ hvalue
  · exact hextra _ hvalue

/-- All numbers of a record have a property if those of its fields and of its other members have
it. -/
theorem SpelledRecord.numbers (h : SpelledRecord extra fields j)
    (hfields : ∀ f ∈ fields, ∀ j, f.value j → j.Numbers p) (hextra : ∀ j, extra j → j.Numbers p) :
    j.Numbers p := by
  rcases h with h | ⟨js, rfl, hjs⟩
  · exact h.numbers hfields hextra
  · refine itemsNumbers_iff.2 fun j hj => ?_
    obtain ⟨f, hf, hvalue⟩ := hjs.exists_field hj
    exact hfields f hf _ hvalue

theorem SpelledOption.numbers (h : ∀ a j, spelling a j → j.Numbers p) {a? : Option α}
    (hj : SpelledOption spelling a? j) : j.Numbers p := by
  cases a? with
  | none =>
    cases hj
    trivial
  | some a => exact h a j hj

theorem SpelledList.numbers (h : ∀ a j, spelling a j → j.Numbers p) {as : List α}
    (hj : SpelledList spelling as j) : j.Numbers p := by
  obtain ⟨js, rfl, hjs⟩ := hj
  change ItemsNumbers p js
  induction hjs with
  | nil => trivial
  | cons hj _ ih => exact ⟨h _ _ hj, ih⟩

end Numbers

/-! Where the member of a field stands. -/

theorem SpelledMembers.fresh {ms : List (String × Json)} {name : String} {kept others}
    (hkept : Kept fields kept) (hperm : ms.Perm (kept ++ others))
    (hfields : ∀ g ∈ fields, name ≠ g.name) (hothers : ∀ m ∈ others, name ≠ m.1) :
    ∀ m ∈ ms, name ≠ m.1 := by
  intro m hm
  rcases List.mem_append.1 (hperm.mem_iff.1 hm) with hm | hm
  · obtain ⟨g, hg, hname, -⟩ := hkept.exists_field hm
    rw [← hname]
    exact hfields g hg
  · exact hothers m hm

/-- The first field has its member somewhere and nowhere else, or is left out; the members without
it spell the other fields. -/
theorem SpelledMembers.cons_cases {ms : List (String × Json)}
    (h : SpelledMembers extra (f :: fields) ms) (hfresh : ∀ g ∈ fields, f.name ≠ g.name) :
    (∃ before j after, ms = before ++ (f.name, j) :: after ∧ f.value j ∧
      (∀ m ∈ before ++ after, f.name ≠ m.1) ∧ SpelledMembers extra fields (before ++ after)) ∨
    (f.omissible ∧ (∀ m ∈ ms, f.name ≠ m.1) ∧ SpelledMembers extra fields ms) := by
  obtain ⟨kept, others, hkept, hperm, hothers⟩ := h
  have hname : ∀ m ∈ others, f.name ≠ m.1 := fun m hm => (hothers m hm).1 f List.mem_cons_self
  have hrest : ∀ m ∈ others, (∀ g ∈ fields, g.name ≠ m.1) ∧ extra m.2 := fun m hm =>
    ⟨fun g hg => (hothers m hm).1 g (List.mem_cons_of_mem _ hg), (hothers m hm).2⟩
  cases hkept with
  | @keep _ _ j kept hvalue hkept =>
    have hmem : (f.name, j) ∈ ms := hperm.mem_iff.2 List.mem_cons_self
    obtain ⟨before, after, rfl⟩ := List.append_of_mem hmem
    have hinner : (before ++ after).Perm (kept ++ others) :=
      (List.perm_middle.symm.trans hperm).cons_inv
    exact .inl ⟨before, j, after, rfl, hvalue, fresh hkept hinner hfresh hname,
      kept, others, hkept, hinner, hrest⟩
  | leave homit hkept =>
    exact .inr ⟨homit, fresh hkept hperm hfresh hname, kept, others, hkept, hperm, hrest⟩

theorem SpelledMembers.exists_required {ms : List (String × Json)} {name : String}
    {value : Json → Prop} (h : SpelledMembers extra (.required name value :: fields) ms)
    (hfresh : ∀ g ∈ fields, name ≠ g.name) :
    ∃ before j after, ms = before ++ (name, j) :: after ∧ value j ∧
      (∀ m ∈ before ++ after, name ≠ m.1) ∧ SpelledMembers extra fields (before ++ after) :=
  (h.cons_cases hfresh).resolve_right fun h => h.1

/-! Members for more fields. -/

theorem spelledMembers_nil {ms : List (String × Json)} (h : ∀ m ∈ ms, extra m.2) :
    SpelledMembers extra [] ms :=
  ⟨[], ms, .nil, .refl ms, fun m hm => ⟨fun _ hf => (nomatch hf), h m hm⟩⟩

/-- A member of a name of its own may be put anywhere among the others. -/
theorem SpelledMembers.keep {before after : List (String × Json)} {j : Json}
    (h : SpelledMembers extra fields (before ++ after)) (hj : f.value j)
    (fresh : ∀ m ∈ before ++ after, f.name ≠ m.1) :
    SpelledMembers extra (f :: fields) (before ++ (f.name, j) :: after) := by
  obtain ⟨kept, others, hkept, hperm, hothers⟩ := h
  refine ⟨(f.name, j) :: kept, others, .keep hj hkept, List.perm_middle.trans (hperm.cons _), ?_⟩
  intro m hm
  obtain ⟨hnames, hextra⟩ := hothers m hm
  exact ⟨List.forall_mem_cons.2 ⟨fresh m (hperm.mem_iff.2 (List.mem_append_right _ hm)), hnames⟩,
    hextra⟩

theorem SpelledMembers.leave {ms : List (String × Json)} (h : SpelledMembers extra fields ms)
    (homit : f.omissible) (fresh : ∀ m ∈ ms, f.name ≠ m.1) :
    SpelledMembers extra (f :: fields) ms := by
  obtain ⟨kept, others, hkept, hperm, hothers⟩ := h
  refine ⟨kept, others, .leave homit hkept, hperm, ?_⟩
  intro m hm
  obtain ⟨hnames, hextra⟩ := hothers m hm
  exact ⟨List.forall_mem_cons.2 ⟨fresh m (hperm.mem_iff.2 (List.mem_append_right _ hm)), hnames⟩,
    hextra⟩

end MethodIR.Json
