import MethodIR.Proofs.FirstSeen

/-!
Interned texts. Numbers and texts determine each other, from the first call on and for good. The same
answers come from a vector of texts and a map of their numbers, which stay inverse to each other.
-/
namespace MethodIR

namespace StringTable

inductive Call where
  | intern (s : String)
  | internFile (name : String)
deriving DecidableEq

inductive Reply where
  | number (n : UInt32)
  | file (f : FileId)
deriving DecidableEq

def Call.text : Call → String
  | .intern s => s
  | .internFile name => name

/-- The number that a text has under either call. -/
def Reply.index : Reply → UInt32
  | .number n => n
  | .file f => f.index

/-- A number as the answer to a call. -/
def Call.reply (n : UInt32) : Call → Reply
  | .intern _ => .number n
  | .internFile _ => .file ⟨n⟩

/-- The answer to a call and the table after it. -/
def serve (t : StringTable) : Call → Reply × StringTable
  | .intern s =>
    let (n, t) := t.intern s
    (.number n, t)
  | .internFile name =>
    let (f, t) := t.internFile name
    (.file f, t)

/-- The table that was empty before the calls. -/
def after (calls : List Call) : StringTable := (serveAll serve empty calls).2

def seen (calls : List Call) : List String := calls.map Call.text

/-- How many different texts come before the first occurrence of a text. -/
def firstSeen (calls : List Call) (s : String) : Nat :=
  ((seen calls).takeWhile (· != s)).eraseDups.length

variable {t : StringTable} {calls : List Call} {c : Call} {s : String} {n : UInt32} {k : Nat}

theorem serve_eq (t : StringTable) (c : Call) :
    t.serve c = (c.reply (t.intern c.text).1, (t.intern c.text).2) := by
  cases c <;> rfl

theorem serveAll_table (t : StringTable) (calls : List Call) :
    (serveAll serve t calls).2 = ⟨t.numbering.insertAll (seen calls)⟩ := by
  induction calls generalizing t with
  | nil => rfl
  | cons c calls ih =>
    change (serveAll serve (t.serve c).2 calls).2 = _
    rw [ih, serve_eq]
    rfl

theorem texts_after (calls : List Call) :
    (after calls).numbering.texts = (seen calls).eraseDups := by
  rw [after, serveAll_table]
  exact Numbering.texts_insertAll _ _

theorem size_after (calls : List Call) : (after calls).size = (seen calls).eraseDups.length := by
  rw [← texts_after]
  rfl

/-- Texts keep their places while calls go on. -/
theorem texts_after_take (calls : List Call) (k : Nat) :
    (after (calls.take k)).numbering.texts <+: (after calls).numbering.texts := by
  have hsplit : seen calls = seen (calls.take k) ++ seen (calls.drop k) := by
    rw [seen, seen, seen, ← List.map_append, List.take_append_drop]
  have hall : (after calls).numbering =
      (after (calls.take k)).numbering.insertAll (seen (calls.drop k)) := by
    rw [after, serveAll_table, after, serveAll_table, hsplit, Numbering.insertAll_append]
  rw [hall]
  exact Numbering.prefix_insertAll _ _

theorem firstSeen_eq (h : s ∈ seen calls) :
    firstSeen calls s = (after calls).numbering.texts.idxOf s := by
  rw [texts_after, Numbering.idxOf_eraseDups h, firstSeen]

theorem after_take_succ (h : calls[k]? = some c) :
    after (calls.take (k + 1)) = ((after (calls.take k)).intern c.text).2 := by
  have hnext : seen (calls.take (k + 1)) = seen (calls.take k) ++ [c.text] := by
    rw [seen, List.take_add_one, h, List.map_append]
    rfl
  rw [after, serveAll_table, hnext, Numbering.insertAll_append, after, serveAll_table]
  rfl

theorem mem_seen_of_call (h : calls[k]? = some c) : c.text ∈ seen calls :=
  List.mem_map_of_mem (List.mem_of_getElem? h)

/-- A text is in the table from the first call for it on. -/
theorem mem_texts_after_take (h : calls[k]? = some c) {m : Nat} (hm : k < m) :
    c.text ∈ (after (calls.take m)).numbering.texts := by
  have hk : (calls.take m)[k]? = some c := by rw [List.getElem?_take, if_pos hm, h]
  rw [texts_after, List.mem_eraseDups]
  exact mem_seen_of_call hk

/-- A text has the same number at every call for it. -/
theorem answer_eq (h : calls[k]? = some c) : (serveAll serve empty calls).1[k]? =
    some (c.reply (.ofNat (firstSeen calls c.text))) := by
  have hnumber : ((after (calls.take k)).intern c.text).1 =
      .ofNat ((after (calls.take (k + 1))).numbering.texts.idxOf c.text) := by
    rw [after_take_succ h, intern, Numbering.number?_getD_size]
  obtain ⟨rest, hrest⟩ := texts_after_take calls (k + 1)
  have hplace := mem_texts_after_take h (Nat.lt_succ_self k)
  rw [getElem?_serveAll, h, Option.map_some, ← after, serve_eq, hnumber,
    firstSeen_eq (mem_seen_of_call h), ← hrest, List.idxOf_append_of_mem hplace]

section Sized

variable (hsize : (seen calls).eraseDups.length < 2 ^ 32)

include hsize

theorem toNat_firstSeen (h : s ∈ seen calls) :
    (UInt32.ofNat (firstSeen calls s)).toNat = firstSeen calls s := by
  refine UInt32.toNat_ofNat_of_lt' (Nat.lt_trans ?_ hsize)
  rw [firstSeen_eq h, texts_after]
  exact List.idxOf_lt_length_of_mem (List.mem_eraseDups.2 h)

/-- A number that was given stands for its text from then on. -/
theorem text?_after_take {m : Nat} (h : s ∈ (after (calls.take m)).numbering.texts) :
    (after (calls.take m)).text? (.ofNat (firstSeen calls s)) = some s := by
  obtain ⟨rest, hrest⟩ := texts_after_take calls m
  have hseen : s ∈ seen calls := by
    rw [← List.mem_eraseDups, ← texts_after, ← hrest]
    exact List.mem_append_left rest h
  rw [text?, toNat_firstSeen hsize hseen, firstSeen_eq hseen, ← hrest,
    List.idxOf_append_of_mem h, Numbering.text?, List.getElem?_idxOf h]

/-- The numbers of the texts seen, and no other numbers, stand for texts. -/
theorem text?_after_iff :
    (after calls).text? n = some s ↔ s ∈ seen calls ∧ n = .ofNat (firstSeen calls s) := by
  have hseen : s ∈ (after calls).numbering.texts ↔ s ∈ seen calls := by
    rw [texts_after, List.mem_eraseDups]
  have hfound : s ∈ (after calls).numbering.texts →
      (after calls).text? (.ofNat (firstSeen calls s)) = some s := by
    intro hs
    have htext := text?_after_take hsize (m := calls.length) (s := s)
    rw [List.take_length] at htext
    exact htext hs
  constructor
  · intro h
    have hs : s ∈ (after calls).numbering.texts := List.mem_of_getElem? h
    have hn : (after calls).numbering.number? s = some n.toNat :=
      (Numbering.number?_eq_some_iff _ s _).2 h
    have hfirst : (after calls).numbering.number? s = some (UInt32.ofNat (firstSeen calls s)).toNat :=
      (Numbering.number?_eq_some_iff _ s _).2 (hfound hs)
    refine ⟨hseen.1 hs, UInt32.toNat_inj.1 (Option.some.inj ?_)⟩
    rw [← hn, hfirst]
  · rintro ⟨hs, rfl⟩
    exact hfound (hseen.2 hs)

end Sized

/-! A vector and a map. -/

/-- A table that is kept as a vector of texts and a map of their numbers. -/
structure Interner where
  texts : Array String
  numbers : Std.HashMap String UInt32

namespace Interner

def empty : Interner := ⟨#[], ∅⟩

def intern (i : Interner) (s : String) : UInt32 × Interner :=
  match i.numbers[s]? with
  | some n => (n, i)
  | none =>
    let n : UInt32 := .ofNat i.texts.size
    (n, ⟨i.texts.push s, i.numbers.insert s n⟩)

def serve (i : Interner) (c : Call) : Reply × Interner :=
  let (n, i) := i.intern c.text
  (c.reply n, i)

/-- The vector has the texts of the table, and the map has their numbers. -/
structure Holds (t : StringTable) (i : Interner) : Prop where
  texts : i.texts.toList = t.numbering.texts
  numbers : ∀ s, i.numbers[s]? = (t.numbering.number? s).map UInt32.ofNat

variable {i : Interner}

theorem holds_empty : Holds .empty empty := ⟨rfl, fun _ => Std.HashMap.getElem?_empty⟩

theorem Holds.size (h : Holds t i) : i.texts.size = t.size := by
  rw [← Array.length_toList, h.texts]
  rfl

theorem Holds.intern (s : String) (h : Holds t i) :
    (i.intern s).1 = (t.intern s).1 ∧ Holds (t.intern s).2 (i.intern s).2 := by
  cases hn : t.numbering.number? s with
  | some n =>
    have hm : s ∈ t.numbering.texts := by
      by_contra hm
      rw [(Numbering.number?_eq_none_iff _ s).2 hm] at hn
      cases hn
    have ht : t.intern s = (.ofNat n, t) := by
      have hsame : t.numbering.insert s = t.numbering := dif_pos hm
      rw [StringTable.intern, hn, hsame]
      rfl
    have hi : i.intern s = (.ofNat n, i) := by
      simp only [Interner.intern, h.numbers, hn, Option.map_some]
    rw [ht, hi]
    exact ⟨rfl, h⟩
  | none =>
    have hfresh : s ∉ t.numbering.texts := (Numbering.number?_eq_none_iff _ s).1 hn
    have ht : t.intern s = (.ofNat t.size, ⟨t.numbering.insert s⟩) := by
      rw [StringTable.intern, hn]
      rfl
    have hi : i.intern s =
        (.ofNat t.size, ⟨i.texts.push s, i.numbers.insert s (.ofNat t.size)⟩) := by
      simp only [Interner.intern, h.numbers, hn, Option.map_none, h.size]
    rw [ht, hi]
    refine ⟨rfl, ?_, fun other => ?_⟩
    · rw [Array.toList_push, h.texts, Numbering.texts_insert_of_fresh hfresh]
    · rw [Std.HashMap.getElem?_insert, h.numbers, Numbering.number?_insert_of_fresh hfresh]
      by_cases heq : s = other
      · rw [if_pos heq, if_pos (beq_iff_eq.2 heq)]
        rfl
      · rw [if_neg heq, if_neg (mt beq_iff_eq.1 heq)]

theorem Holds.serve (c : Call) (h : Holds t i) :
    (i.serve c).1 = (t.serve c).1 ∧ Holds (t.serve c).2 (i.serve c).2 := by
  obtain ⟨hnumber, hnext⟩ := h.intern c.text
  rw [serve_eq]
  exact ⟨congrArg c.reply hnumber, hnext⟩

/-- The vector and the map are inverse to each other. -/
theorem Holds.inverse (h : Holds t i) (hsize : t.size < 2 ^ 32) (s : String) (n : UInt32) :
    i.numbers[s]? = some n ↔ i.texts[n.toNat]? = some s := by
  rw [h.numbers, ← Array.getElem?_toList, h.texts, Option.map_eq_some_iff]
  constructor
  · rintro ⟨k, hk, rfl⟩
    have htext := (Numbering.number?_eq_some_iff _ s k).1 hk
    have hplace : k < t.size := (List.getElem?_eq_some_iff.1 htext).1
    rw [UInt32.toNat_ofNat_of_lt' (Nat.lt_trans hplace hsize)]
    exact htext
  · intro htext
    exact ⟨n.toNat, (Numbering.number?_eq_some_iff _ s _).2 htext, UInt32.ofNat_toNat⟩

end Interner

/-- Calls on a new table. A text has the same number at every call for it, of either kind: how many
different texts were seen before it. That number stands for it from its first call on, other texts
have other numbers, and no other number stands for anything. A vector and a map, which stay inverse to
each other, give the same answers. -/
theorem numbers_by_first_call (calls : List Call)
    (hsize : (seen calls).eraseDups.length < 2 ^ 32) :
    (∀ (k : Nat) c, calls[k]? = some c →
      (serveAll serve empty calls).1[k]? = some (c.reply (.ofNat (firstSeen calls c.text))) ∧
      (UInt32.ofNat (firstSeen calls c.text)).toNat = firstSeen calls c.text ∧
      ∀ m, k < m →
        (after (calls.take m)).text? (.ofNat (firstSeen calls c.text)) = some c.text) ∧
    (∀ (k l : Nat) c d r r', calls[k]? = some c → calls[l]? = some d →
      (serveAll serve empty calls).1[k]? = some r → (serveAll serve empty calls).1[l]? = some r' →
      (r.index = r'.index ↔ c.text = d.text)) ∧
    (∀ n s, (after calls).text? n = some s ↔
      s ∈ seen calls ∧ n = .ofNat (firstSeen calls s)) ∧
    (∀ n s, (after calls).text? n = some s → (after calls).intern s = (n, after calls) ∧
      (after calls).internFile s = (⟨n⟩, after calls)) ∧
    (∀ n, (after calls).text? n = none ↔ (after calls).size ≤ n.toNat) ∧
    (∀ f, (after calls).file? f = (after calls).text? f.index) ∧
    (after calls).size = (seen calls).eraseDups.length ∧
    (serveAll Interner.serve .empty calls).1 = (serveAll serve empty calls).1 ∧
    (serveAll Interner.serve .empty calls).2.texts.toList = (seen calls).eraseDups ∧
    ∀ s (n : UInt32), (serveAll Interner.serve .empty calls).2.numbers[s]? = some n ↔
      (serveAll Interner.serve .empty calls).2.texts[n.toNat]? = some s := by
  obtain ⟨hanswers, hholds⟩ :=
    serveAll_alike (fun c h => Interner.Holds.serve c h) Interner.holds_empty calls
  refine ⟨fun k c hc => ⟨answer_eq hc, toNat_firstSeen hsize (mem_seen_of_call hc), fun m hm =>
      text?_after_take hsize (mem_texts_after_take hc hm)⟩, ?_, fun n s => text?_after_iff hsize,
    fun n s h => ⟨intern_of_text? h, internFile_of_file? h⟩, fun n => Numbering.text?_eq_none_iff _ _,
    fun f => rfl, size_after calls, hanswers, hholds.texts.trans (texts_after calls),
    hholds.inverse ?_⟩
  · intro k l c d r r' hc hd hr hr'
    have hindex : ∀ (c : Call) n, (c.reply n).index = n := by
      intro c n
      cases c <;> rfl
    rw [answer_eq hc, Option.some.injEq] at hr
    rw [answer_eq hd, Option.some.injEq] at hr'
    rw [← hr, ← hr', hindex, hindex]
    refine ⟨fun heq => ?_, fun heq => by rw [heq]⟩
    have hfirst := (text?_after_iff hsize).2 ⟨mem_seen_of_call hc, rfl⟩
    have hsecond := (text?_after_iff hsize).2 ⟨mem_seen_of_call hd, rfl⟩
    rw [heq, hsecond] at hfirst
    exact (Option.some.inj hfirst).symm
  · change (after calls).size < 2 ^ 32
    rwa [size_after]

/-- A file between two texts, one of which has its name. -/
theorem numbers_by_first_call_shared :
    let calls : List Call := [.intern "a.rb", .internFile "b.rb", .internFile "a.rb", .intern "b.rb"]
    (seen calls).eraseDups.length < 2 ^ 32 ∧
      (serveAll serve empty calls).1[2]? = some (.file ⟨0⟩) ∧
      (serveAll serve empty calls).1[3]? = some (.number 1) ∧
      (after calls).text? 1 = some "b.rb" ∧
      (after calls).intern "b.rb" = (1, after calls) ∧
      (after calls).text? 2 = none := by
  intro calls
  have hsize : (seen calls).eraseDups.length < 2 ^ 32 := by decide
  obtain ⟨hanswer, -, htext, hintern, hnone, -, hlength, -⟩ := numbers_by_first_call calls hsize
  have hb : (after calls).text? 1 = some "b.rb" := (htext 1 "b.rb").2 ⟨by decide, rfl⟩
  refine ⟨hsize, (hanswer 2 _ rfl).1, (hanswer 3 _ rfl).1, hb, (hintern 1 "b.rb" hb).1,
    (hnone 2).2 ?_⟩
  rw [hlength]
  decide

end StringTable

end MethodIR
