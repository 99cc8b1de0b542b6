import MethodIR.Proofs.Json.Scanning

/-! Both layouts of a value are read back as the document of that value. -/
namespace MethodIR.Json

open Document (ofJson ofItems ofMembers)

/-- The texts of a value. -/
def layouts (j : Json) : List String := [j.render, j.pretty]

/-- The number is written with digits, and it is not too large. -/
def Literal.Readable (l : Literal) : Prop := l.WellFormed ∧ ∃ x, l.number = .ok x

mutual

/-- All numbers in a value have this property. -/
def Numbers (p : Literal → Prop) : Json → Prop
  | .null | .boolean _ | .text _ => True
  | .number l => p l
  | .list items => ItemsNumbers p items
  | .object members => MembersNumbers p members

def ItemsNumbers (p : Literal → Prop) : List Json → Prop
  | [] => True
  | j :: js => Numbers p j ∧ ItemsNumbers p js

def MembersNumbers (p : Literal → Prop) : List (String × Json) → Prop
  | [] => True
  | (_, j) :: ms => Numbers p j ∧ MembersNumbers p ms

end

theorem itemsNumbers_iff {p : Literal → Prop} {js : List Json} :
    ItemsNumbers p js ↔ ∀ j ∈ js, j.Numbers p := by
  induction js with
  | nil => simp [ItemsNumbers]
  | cons j js ih => rw [ItemsNumbers, ih, List.forall_mem_cons]

theorem membersNumbers_iff {p : Literal → Prop} {ms : List (String × Json)} :
    MembersNumbers p ms ↔ ∀ m ∈ ms, m.2.Numbers p := by
  induction ms with
  | nil => simp [MembersNumbers]
  | cons m ms ih => rw [MembersNumbers, ih, List.forall_mem_cons]

mutual

theorem Numbers.mono {p q : Literal → Prop} (hpq : ∀ l, p l → q l) {j : Json} (h : j.Numbers p) :
    j.Numbers q := by
  cases j with
  | null | boolean | text => trivial
  | number l => exact hpq l h
  | list items => exact ItemsNumbers.mono hpq h
  | object members => exact MembersNumbers.mono hpq h

theorem ItemsNumbers.mono {p q : Literal → Prop} (hpq : ∀ l, p l → q l) {js : List Json}
    (h : ItemsNumbers p js) : ItemsNumbers q js := by
  cases js with
  | nil => trivial
  | cons j js => exact ⟨Numbers.mono hpq h.1, ItemsNumbers.mono hpq h.2⟩

theorem MembersNumbers.mono {p q : Literal → Prop} (hpq : ∀ l, p l → q l)
    {ms : List (String × Json)} (h : MembersNumbers p ms) : MembersNumbers q ms := by
  cases ms with
  | nil => trivial
  | cons m ms => exact ⟨Numbers.mono hpq h.1, MembersNumbers.mono hpq h.2⟩

end

/-- All numbers in a value are written with digits, however large they are. -/
abbrev Valid : Json → Prop := Numbers Literal.WellFormed

/-- All numbers in a value can be read. -/
abbrev Readable : Json → Prop := Numbers Literal.Readable

abbrev ItemsReadable : List Json → Prop := ItemsNumbers Literal.Readable

abbrev MembersReadable : List (String × Json) → Prop := MembersNumbers Literal.Readable

theorem Readable.valid {j : Json} (h : j.Readable) : j.Valid := h.mono fun _ hl => hl.1

/-- A member without any blanks. -/
def memberText (m : String × Json) : List Char := writeText m.1 ++ ':' :: m.2.compact

theorem writeItems_eq (js : List Json) (rest : List Char) :
    writeItems js rest = commas (js.map compact) ++ rest := by
  induction js with
  | nil => rfl
  | cons j js ih =>
    cases js with
    | nil => exact writeOnto_eq j rest
    | cons j' js =>
      rw [writeItems, writeOnto_eq, ih]
      · exact (commas_cons_append j.compact j'.compact _ rest).symm
      · simp

theorem writeMembers_eq (ms : List (String × Json)) (rest : List Char) :
    writeMembers ms rest = commas (ms.map memberText) ++ rest := by
  induction ms with
  | nil => rfl
  | cons m ms ih =>
    obtain ⟨k, j⟩ := m
    cases ms with
    | nil =>
      rw [writeMembers, writeOnto_eq]
      exact (List.append_assoc _ (':' :: j.compact) rest).symm
    | cons m' ms =>
      rw [writeMembers, writeOnto_eq, ih]
      · have hcomma := commas_cons_append (memberText (k, j)) (memberText m')
          (ms.map memberText) rest
        exact (hcomma.trans (List.append_assoc _ (':' :: j.compact) _)).symm
      · simp

theorem compact_list (js : List Json) :
    (list js).compact = '[' :: (commas (js.map compact) ++ ([] ++ [']'])) := by
  rw [compact, writeOnto, writeItems_eq]
  rfl

theorem compact_object (ms : List (String × Json)) :
    (object ms).compact = '\x7b' :: (commas (ms.map memberText) ++ ([] ++ ['\x7d'])) := by
  rw [compact, writeOnto, writeMembers_eq]
  rfl

theorem blank_nil : Blank [] := fun _ h => nomatch h

mutual

theorem scans_compact {j : Json} (h : j.Valid) : Scans j.compact (ofJson j) := by
  cases j with
  | null =>
    rw [compact, writeOnto, List.append_nil]
    exact scans_null
  | boolean b =>
    rw [compact, writeOnto, List.append_nil]
    exact scans_boolean b
  | number l =>
    rw [compact, writeOnto, List.append_nil]
    exact scans_number h
  | text s =>
    rw [compact, writeOnto, List.append_nil]
    exact scans_text s
  | list items =>
    rw [compact_list]
    exact scans_list (scans_compactItems h) blank_nil
  | object members =>
    rw [compact_object]
    exact scans_object (scans_compactMembers h) blank_nil

theorem scans_compactItems {js : List Json} (h : ItemsNumbers Literal.WellFormed js) :
    List.Forall₂ Scans (js.map compact) (ofItems js) := by
  cases js with
  | nil => exact .nil
  | cons j js => exact .cons (scans_compact h.1) (scans_compactItems h.2)

theorem scans_compactMembers {ms : List (String × Json)}
    (h : MembersNumbers Literal.WellFormed ms) :
    List.Forall₂ ScansMember (ms.map memberText) (ofMembers ms) := by
  cases ms with
  | nil => exact .nil
  | cons m ms =>
    obtain ⟨k, j⟩ := m
    exact .cons (.mk blank_nil k (scans_compact h.1)) (scans_compactMembers h.2)

end

theorem blank_newline (level : Nat) : Blank (newline level) := by
  intro c hc
  rcases List.mem_cons.1 hc with rfl | hc
  · rfl
  · rw [List.eq_of_mem_replicate hc]
    rfl

theorem block_eq (opening closing : Char) (level : Nat) (pieces : List (List Char)) :
    ∃ gap, Blank gap ∧ block opening closing level pieces =
      opening :: (commas (pieces.map (newline (level + 1) ++ ·)) ++ (gap ++ [closing])) := by
  cases pieces with
  | nil => exact ⟨[], blank_nil, rfl⟩
  | cons piece pieces =>
    refine ⟨newline level, blank_newline level, ?_⟩
    rw [block, List.append_assoc]
    simp

mutual

theorem scans_pretty {j : Json} (level : Nat) (h : j.Valid) :
    Scans (j.prettyAt level) (ofJson j) := by
  cases j with
  | null => exact scans_null
  | boolean b => exact scans_boolean b
  | number l => exact scans_number h
  | text s => exact scans_text s
  | list items =>
    obtain ⟨gap, hg, htext⟩ := block_eq '[' ']' level (prettyItems (level + 1) items)
    rw [prettyAt, htext]
    exact scans_list (scans_prettyItems level h) hg
  | object members =>
    obtain ⟨gap, hg, htext⟩ := block_eq '\x7b' '\x7d' level (prettyMembers (level + 1) members)
    rw [prettyAt, htext]
    exact scans_object (scans_prettyMembers level h) hg

theorem scans_prettyItems {js : List Json} (level : Nat) (h : ItemsNumbers Literal.WellFormed js) :
    List.Forall₂ Scans ((prettyItems (level + 1) js).map (newline (level + 1) ++ ·))
      (ofItems js) := by
  cases js with
  | nil => exact .nil
  | cons j js =>
    exact .cons ((scans_pretty (level + 1) h.1).blank (blank_newline (level + 1)))
      (scans_prettyItems level h.2)

theorem scans_prettyMembers {ms : List (String × Json)} (level : Nat)
    (h : MembersNumbers Literal.WellFormed ms) :
    List.Forall₂ ScansMember ((prettyMembers (level + 1) ms).map (newline (level + 1) ++ ·))
      (ofMembers ms) := by
  cases ms with
  | nil => exact .nil
  | cons m ms =>
    obtain ⟨k, j⟩ := m
    have hspace : Blank [' '] := by simp [Blank, isBlank]
    have hvalue : Scans (' ' :: j.prettyAt (level + 1)) (ofJson j) :=
      (scans_pretty (level + 1) h.1).blank hspace
    have hmember := ScansMember.mk (blank_newline (level + 1)) k hvalue
    have hpiece : writeText k ++ ": ".toList ++ j.prettyAt (level + 1) =
        writeText k ++ ':' :: ' ' :: j.prettyAt (level + 1) := List.append_assoc ..
    rw [← hpiece] at hmember
    exact .cons hmember (scans_prettyMembers level h.2)

end

theorem Scans.ofChars {cs : List Char} {d : Document} (h : Scans cs d) :
    Document.ofChars cs = (d, []) := by
  have hscan := h [] (3 * cs.length + 3) (fun _ h => nomatch h) (by simp)
  rw [List.append_nil] at hscan
  rw [Document.ofChars, hscan]
  rfl

/-- The whole text is read as the document of a value, whatever blanks and escapes it has. -/
def IsText (j : Json) (s : String) : Prop :=
  ∃ rest, Document.ofChars s.toList = (ofJson j, rest) ∧ skipBlanks rest = []

theorem isText_of_scans {j : Json} {cs : List Char} (h : Scans cs (ofJson j)) :
    j.IsText (String.ofList cs) := by
  refine ⟨[], ?_, rfl⟩
  rw [String.toList_ofList, h.ofChars]

theorem isText_render {j : Json} (h : j.Valid) : j.IsText j.render :=
  isText_of_scans (scans_compact h)

theorem isText_pretty {j : Json} (h : j.Valid) : j.IsText j.pretty :=
  isText_of_scans (scans_pretty 0 h)

theorem isText_of_mem_layouts {j : Json} (h : j.Valid) {s : String} (hs : s ∈ j.layouts) :
    j.IsText s := by
  simp only [layouts, List.mem_cons, List.not_mem_nil, or_false] at hs
  rcases hs with rfl | rfl
  · exact isText_render h
  · exact isText_pretty h

end MethodIR.Json
