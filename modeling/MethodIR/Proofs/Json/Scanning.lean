import Mathlib.Data.List.Defs
import MethodIR.Proofs.Json.Numerals

/-!
The texts of values are scanned to their documents. A text may have blanks between its tokens, so
that this holds of both layouts.
-/
namespace MethodIR.Json

open Document (scan scanItems scanItem scanMembers scanMember)

variable {cs rest gap piece : List Char} {d : Document} {steps : Nat}

def Blank (cs : List Char) : Prop := ∀ c ∈ cs, isBlank c

theorem isBlank_eq_true_iff {c : Char} :
    isBlank c = true ↔ ((c = ' ' ∨ c = '\n') ∨ c = '\t') ∨ c = '\r' := by
  simp [isBlank]

theorem skipBlanks_append (h : Blank gap) (cs : List Char) :
    skipBlanks (gap ++ cs) = skipBlanks cs :=
  List.dropWhile_append_of_pos h

theorem skipBlanks_cons {c : Char} (h : isBlank c = false) (cs : List Char) :
    skipBlanks (c :: cs) = c :: cs := by
  simp [skipBlanks, h]

theorem skipBlanks_skipBlanks (cs : List Char) : skipBlanks (skipBlanks cs) = skipBlanks cs := by
  induction cs with
  | nil => rfl
  | cons c cs ih =>
    cases h : isBlank c with
    | true => simpa [skipBlanks, h] using ih
    | false => rw [skipBlanks_cons h, skipBlanks_cons h]

theorem scan_skipBlanks (steps : Nat) (cs : List Char) :
    scan steps (skipBlanks cs) = scan steps cs := by
  cases steps with
  | zero => rfl
  | succ steps => rw [scan, scan, skipBlanks_skipBlanks]

theorem scanItem_skipBlanks (steps : Nat) (cs : List Char) :
    scanItem steps (skipBlanks cs) = scanItem steps cs := by
  cases steps with
  | zero => rfl
  | succ steps => rw [scanItem, scanItem, scan_skipBlanks]

/-- A text is scanned to a document in front of anything that a number does not go on with. Each
character is worth three steps: to the list or the object that it stands in, to the item or the
member, and to the value. -/
def Scans (cs : List Char) (d : Document) : Prop := ∀ rest steps, Stops continues rest →
  3 * (cs ++ rest).length ≤ steps → scan steps (cs ++ rest) = (d, some rest)

theorem Scans.blank (h : Scans cs d) (hg : Blank gap) : Scans (gap ++ cs) d := by
  intro rest steps hr hs
  have hskip := scan_skipBlanks steps (gap ++ cs ++ rest)
  rw [List.append_assoc, skipBlanks_append hg, scan_skipBlanks] at hskip
  rw [List.append_assoc, ← hskip]
  refine h rest steps hr ?_
  simp only [List.length_append] at hs ⊢
  omega

/-- No value begins with a closing bracket. -/
theorem Scans.not_closed (h : Scans cs d) (hr : Stops continues rest) :
    ∃ c more, skipBlanks (cs ++ rest) = c :: more ∧ c ≠ ']' := by
  have hscan := h rest (3 * (cs ++ rest).length + 1) hr (Nat.le_succ _)
  rw [scan] at hscan
  cases hb : skipBlanks (cs ++ rest) with
  | nil =>
    rw [hb] at hscan
    cases hscan
  | cons c more =>
    refine ⟨c, more, rfl, ?_⟩
    rintro rfl
    rw [hb] at hscan
    cases hscan

theorem scans_null : Scans "null".toList .null := by
  rintro rest (_ | steps) hr hs
  · simp at hs
  · rfl

theorem scans_boolean (b : Bool) : Scans (if b then "true" else "false").toList (.boolean b) := by
  rintro rest (_ | steps) hr hs
  · cases b <;> simp at hs
  · cases b <;> rfl

theorem scans_numeral (t : Numeral) : Scans t.text (.number t.literal) := by
  obtain ⟨c, cs, h, hc⟩ := t.text_cons
  rintro rest (_ | steps) hr hs
  · simp [h] at hs
  · have hread := t.scanLiteral_text hr
    rw [h, List.cons_append] at hread ⊢
    have hblank : isBlank c = false := by
      rw [Bool.eq_false_iff, ne_eq, isBlank_eq_true_iff]
      rintro (((rfl | rfl) | rfl) | rfl) <;> rcases hc with hc | hc <;> cases hc
    have hstart : (c = '-' || c.isDigit) = true := by simpa using hc
    have hn : c ≠ 'n' := by rintro rfl; rcases hc with hc | hc <;> cases hc
    have ht : c ≠ 't' := by rintro rfl; rcases hc with hc | hc <;> cases hc
    have hf : c ≠ 'f' := by rintro rfl; rcases hc with hc | hc <;> cases hc
    rw [scan, skipBlanks_cons hblank]
    simp only [if_neg hn, if_neg ht, if_neg hf, if_pos hstart, Document.scanNumber, hread]

theorem scans_number {l : Literal} (hl : l.WellFormed) : Scans l.text (.number l) := by
  obtain ⟨t, htext, hliteral⟩ := l.exists_numeral hl
  rw [← htext, ← hliteral]
  exact scans_numeral t

theorem scans_text (s : String) : Scans (writeText s) (.text s) := by
  rintro rest (_ | steps) hr hs
  · simp [writeText] at hs
  · have hread := scanText_writeText s rest
    rw [writeText, List.cons_append, List.append_assoc]
    change Document.scanString (s.toList.flatMap writeChar ++ '"' :: rest) = _
    rw [Document.scanString, hread]

theorem stops_blank_append (hg : Blank gap) {c : Char} (hc : continues c = false)
    (rest : List Char) : Stops continues (gap ++ c :: rest) := by
  cases gap with
  | nil => exact stops_cons hc rest
  | cons b gap =>
    have hb : isBlank b := hg b (List.mem_cons_self ..)
    rw [isBlank_eq_true_iff] at hb
    rcases hb with ((rfl | rfl) | rfl) | rfl <;> exact stops_cons rfl _

/-- Pieces with commas between them go on behind the first with nothing that belongs to it. -/
theorem commas_append (piece : List Char) (pieces : List (List Char)) {tail : List Char}
    (ht : Stops continues tail) :
    ∃ more, commas (piece :: pieces) ++ tail = piece ++ more ∧ Stops continues more := by
  cases pieces with
  | nil => exact ⟨tail, rfl, ht⟩
  | cons piece' pieces =>
    exact ⟨',' :: (commas (piece' :: pieces) ++ tail), by simp [commas], stops_cons rfl _⟩

theorem commas_cons_append (piece piece' : List Char) (pieces : List (List Char))
    (tail : List Char) : commas (piece :: piece' :: pieces) ++ tail =
      piece ++ ',' :: (commas (piece' :: pieces) ++ tail) := by
  simp [commas]

/-! Lists. -/

theorem scanItems_closed (hg : Blank gap) (first : Bool) (rest : List Char) (steps : Nat) :
    scanItems (steps + 1) first (gap ++ ']' :: rest) = ([], .closed, some rest) := by
  rw [scanItems, skipBlanks_append hg]
  rfl

theorem scanItems_first {c : Char} {more : List Char} (h : skipBlanks cs = c :: more)
    (hc : c ≠ ']') (steps : Nat) : scanItems (steps + 1) true cs = scanItem steps cs := by
  rw [← scanItem_skipBlanks, scanItems, h]
  simp only [if_neg hc, if_true]

theorem scanItems_comma {c : Char} {more : List Char} (h : skipBlanks cs = c :: more)
    (hc : c ≠ ']') (steps : Nat) : scanItems (steps + 1) false (',' :: cs) = scanItem steps cs := by
  rw [scanItems, skipBlanks_cons rfl]
  simp only [Char.reduceEq, if_false, Bool.false_eq_true, if_true]
  split
  · rename_i heq
    cases h.symm.trans heq
    exact absurd rfl hc
  · exact scanItem_skipBlanks steps cs

theorem scanItem_eq {rest : List Char} {ds : List Document} {ending : ListEnd}
    {last : Option (List Char)} (h : scan steps cs = (d, some rest))
    (hs : scanItems steps false rest = (ds, ending, last)) :
    scanItem (steps + 1) cs = (d :: ds, ending, last) := by
  rw [scanItem, h]
  simp only [hs]

/-- Pieces with commas between them are scanned one after another. -/
theorem scanItem_commas {pieces : List (List Char)} {ds : List Document} (hp : Scans piece d)
    (hps : List.Forall₂ Scans pieces ds) (hg : Blank gap) (rest : List Char)
    (hs : 3 * (commas (piece :: pieces) ++ (gap ++ ']' :: rest)).length + 1 ≤ steps) :
    scanItem steps (commas (piece :: pieces) ++ (gap ++ ']' :: rest)) =
      (d :: ds, .closed, some rest) := by
  induction hps generalizing piece d steps with
  | nil =>
    obtain ⟨steps, rfl⟩ : ∃ n, steps = n + 2 := ⟨steps - 2, by simp [commas] at hs; omega⟩
    have hscan := hp (gap ++ ']' :: rest) (steps + 1) (stops_blank_append hg rfl rest)
      (by simp only [commas] at hs; omega)
    exact scanItem_eq hscan (scanItems_closed hg false rest steps)
  | @cons piece' d' pieces ds hp' hps ih =>
    rw [commas_cons_append] at hs ⊢
    obtain ⟨steps, rfl⟩ : ∃ n, steps = n + 2 := ⟨steps - 2, by simp at hs; omega⟩
    have hscan := hp (',' :: (commas (piece' :: pieces) ++ (gap ++ ']' :: rest))) (steps + 1)
      (stops_cons rfl _) (by omega)
    have hshorter :
        3 * (commas (piece' :: pieces) ++ (gap ++ ']' :: rest)).length + 1 ≤ steps := by
      simp at hs ⊢
      omega
    have hrest := ih hp' hshorter
    have hclose : Stops continues (gap ++ ']' :: rest) := stops_blank_append hg rfl rest
    obtain ⟨more, hmore, hstops⟩ := commas_append piece' pieces hclose
    obtain ⟨c, cs, hc, hne⟩ := hp'.not_closed hstops
    rw [← hmore] at hc
    exact scanItem_eq hscan ((scanItems_comma hc hne steps).trans hrest)

theorem scan_list {ds : List Document} {ending : ListEnd} {last : Option (List Char)}
    (h : scanItems steps true cs = (ds, ending, last)) :
    scan (steps + 1) ('[' :: cs) = (.list ds ending, last) := by
  have hscan : scan (steps + 1) ('[' :: cs) = (.list (scanItems steps true cs).1
      (scanItems steps true cs).2.1, (scanItems steps true cs).2.2) := rfl
  rw [hscan, h]

theorem scans_list {pieces : List (List Char)} {ds : List Document}
    (hps : List.Forall₂ Scans pieces ds) (hg : Blank gap) :
    Scans ('[' :: (commas pieces ++ (gap ++ [']']))) (.list ds .closed) := by
  intro rest steps hr hs
  have htext : '[' :: (commas pieces ++ (gap ++ [']'])) ++ rest =
      '[' :: (commas pieces ++ (gap ++ ']' :: rest)) := by
    simp
  rw [htext] at hs ⊢
  obtain ⟨steps, rfl⟩ : ∃ n, steps = n + 2 := ⟨steps - 2, by simp at hs; omega⟩
  have hitems : scanItems (steps + 1) true (commas pieces ++ (gap ++ ']' :: rest)) =
      (ds, .closed, some rest) := by
    cases hps with
    | nil => exact scanItems_closed hg true rest steps
    | @cons piece d pieces ds hp hps =>
      have hclose : Stops continues (gap ++ ']' :: rest) := stops_blank_append hg rfl rest
      obtain ⟨more, hmore, hstops⟩ := commas_append piece pieces hclose
      obtain ⟨c, cs, hc, hne⟩ := hp.not_closed hstops
      rw [← hmore] at hc
      rw [scanItems_first hc hne]
      exact scanItem_commas hp hps hg rest (by simp at hs ⊢; omega)
  exact scan_list hitems

/-! Objects. -/

/-- A text is a member of an object: a key, a colon and a value. -/
inductive ScansMember : List Char → Key × Document → Prop where
  | mk {gap cs : List Char} (hg : Blank gap) (key : String) {d : Document} (h : Scans cs d) :
    ScansMember (gap ++ (writeText key ++ ':' :: cs)) (.name key, d)

theorem scanMembers_closed (hg : Blank gap) (first : Bool) (rest : List Char) (steps : Nat) :
    scanMembers (steps + 1) first (gap ++ '\x7d' :: rest) = ([], .closed, some rest) := by
  rw [scanMembers, skipBlanks_append hg]
  rfl

theorem scanMembers_first {more : List Char} (h : skipBlanks cs = '"' :: more) (steps : Nat) :
    scanMembers (steps + 1) true cs = scanMember steps ('"' :: more) := by
  rw [scanMembers, h]
  rfl

theorem scanMembers_comma {more : List Char} (h : skipBlanks cs = '"' :: more) (steps : Nat) :
    scanMembers (steps + 1) false (',' :: cs) = scanMember steps ('"' :: more) := by
  rw [scanMembers, skipBlanks_cons rfl]
  simp only [Char.reduceEq, if_false, Bool.false_eq_true, if_true, h]

theorem scanMember_eq {key : String} {rest : List Char} {ms : List (Key × Document)}
    {ending : ObjectEnd} {last : Option (List Char)} (h : scan steps cs = (d, some rest))
    (hs : scanMembers steps false rest = (ms, ending, last)) :
    scanMember (steps + 1) (writeText key ++ ':' :: cs) = ((.name key, d) :: ms, ending, last) := by
  have hkey : Document.scanKey (key.toList.flatMap writeChar ++ '"' :: ':' :: cs) =
      (.name key, some (':' :: cs)) := by
    rw [Document.scanKey, scanText_writeText]
  rw [writeText, List.cons_append, List.append_assoc, List.singleton_append, scanMember]
  simp only [hkey, skipBlanks_cons (c := ':') rfl, h, hs]

theorem ScansMember.skipBlanks_append {m : Key × Document} (h : ScansMember piece m) :
    ∃ key cs d, m = (.name key, d) ∧ Scans cs d ∧ cs.length ≤ piece.length ∧
      ∀ tail, skipBlanks (piece ++ tail) = writeText key ++ ':' :: (cs ++ tail) := by
  cases h with
  | @mk gap cs hg key d h =>
    refine ⟨key, cs, d, rfl, h, by simp; omega, fun tail => ?_⟩
    rw [List.append_assoc, Json.skipBlanks_append hg, List.append_assoc]
    exact skipBlanks_cons rfl _

theorem scanMember_commas {pieces : List (List Char)} {m : Key × Document}
    {ms : List (Key × Document)} (hp : ScansMember piece m)
    (hps : List.Forall₂ ScansMember pieces ms) (hg : Blank gap) (rest : List Char)
    (hs : 3 * (commas (piece :: pieces) ++ (gap ++ '\x7d' :: rest)).length + 1 ≤ steps) :
    scanMember steps (skipBlanks (commas (piece :: pieces) ++ (gap ++ '\x7d' :: rest))) =
      (m :: ms, .closed, some rest) := by
  induction hps generalizing piece m steps with
  | nil =>
    obtain ⟨key, cs, d, rfl, h, hlength, hskip⟩ := hp.skipBlanks_append
    obtain ⟨steps, rfl⟩ : ∃ n, steps = n + 2 := ⟨steps - 2, by simp [commas] at hs; omega⟩
    have hscan := h (gap ++ '\x7d' :: rest) (steps + 1) (stops_blank_append hg rfl rest)
      (by simp [commas] at hs ⊢; omega)
    rw [commas, hskip]
    exact scanMember_eq hscan (scanMembers_closed hg false rest steps)
  | @cons piece' m' pieces ms hp' hps ih =>
    obtain ⟨key, cs, d, rfl, h, hlength, hskip⟩ := hp.skipBlanks_append
    rw [commas_cons_append] at hs ⊢
    obtain ⟨steps, rfl⟩ : ∃ n, steps = n + 2 := ⟨steps - 2, by simp at hs; omega⟩
    have hscan := h (',' :: (commas (piece' :: pieces) ++ (gap ++ '\x7d' :: rest))) (steps + 1)
      (stops_cons rfl _) (by simp at hs ⊢; omega)
    have hshorter :
        3 * (commas (piece' :: pieces) ++ (gap ++ '\x7d' :: rest)).length + 1 ≤ steps := by
      simp at hs ⊢
      omega
    have hrest := ih hp' hshorter
    rw [hskip]
    refine scanMember_eq hscan ?_
    obtain ⟨key', cs', d', -, -, -, hskip'⟩ := hp'.skipBlanks_append
    have hclose : Stops continues (gap ++ '\x7d' :: rest) := stops_blank_append hg rfl rest
    obtain ⟨more, hmore, -⟩ := commas_append piece' pieces hclose
    have hquote := hskip' more
    rw [← hmore] at hquote
    rw [scanMembers_comma hquote, ← hrest, hquote]
    rfl

theorem scan_object {ms : List (Key × Document)} {ending : ObjectEnd}
    {last : Option (List Char)} (h : scanMembers steps true cs = (ms, ending, last)) :
    scan (steps + 1) ('\x7b' :: cs) = (.object ms ending, last) := by
  have hscan : scan (steps + 1) ('\x7b' :: cs) = (.object (scanMembers steps true cs).1
      (scanMembers steps true cs).2.1, (scanMembers steps true cs).2.2) := rfl
  rw [hscan, h]

theorem scans_object {pieces : List (List Char)} {ms : List (Key × Document)}
    (hps : List.Forall₂ ScansMember pieces ms) (hg : Blank gap) :
    Scans ('\x7b' :: (commas pieces ++ (gap ++ ['\x7d']))) (.object ms .closed) := by
  intro rest steps hr hs
  have htext : '\x7b' :: (commas pieces ++ (gap ++ ['\x7d'])) ++ rest =
      '\x7b' :: (commas pieces ++ (gap ++ '\x7d' :: rest)) := by
    simp
  rw [htext] at hs ⊢
  obtain ⟨steps, rfl⟩ : ∃ n, steps = n + 2 := ⟨steps - 2, by simp at hs; omega⟩
  have hmembers : scanMembers (steps + 1) true (commas pieces ++ (gap ++ '\x7d' :: rest)) =
      (ms, .closed, some rest) := by
    cases hps with
    | nil => exact scanMembers_closed hg true rest steps
    | @cons piece m pieces ms hp hps =>
      have hclose : Stops continues (gap ++ '\x7d' :: rest) := stops_blank_append hg rfl rest
      obtain ⟨more, hmore, -⟩ := commas_append piece pieces hclose
      obtain ⟨key, cs, d, -, -, -, hskip⟩ := hp.skipBlanks_append
      have hquote := hskip more
      have hlength :
          3 * (commas (piece :: pieces) ++ (gap ++ '\x7d' :: rest)).length + 1 ≤ steps := by
        simp at hs ⊢
        omega
      have hscan := scanMember_commas hp hps hg rest hlength
      rw [← hmore] at hquote
      rw [scanMembers_first hquote, ← hscan, hquote]
      rfl
  exact scan_object hmembers

end MethodIR.Json
