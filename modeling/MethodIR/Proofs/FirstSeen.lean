import Mathlib.Algebra.Group.Nat.Defs
import Mathlib.Data.List.Induction
import Mathlib.Data.List.Nodup
import MethodIR.StringTable
import MethodIR.VariableTable

/-! Tables after a sequence of requests: each name once, in the order of the first requests. -/
namespace MethodIR

section Serving

variable {σ τ κ α : Type} {serve : σ → κ → α × σ} {serve' : τ → κ → α × τ}

/-- Serves calls one after another: the answers, and the state after them. -/
def serveAll (serve : σ → κ → α × σ) (s : σ) : List κ → List α × σ
  | [] => ([], s)
  | c :: cs =>
    let (a, s) := serve s c
    let (as, s) := serveAll serve s cs
    (a :: as, s)

/-- Each call is served in the state that those before it have left. -/
theorem getElem?_serveAll (s : σ) (cs : List κ) (k : Nat) : (serveAll serve s cs).1[k]? =
    cs[k]?.map fun c => (serve (serveAll serve s (cs.take k)).2 c).1 := by
  induction cs generalizing s k with
  | nil => rfl
  | cons c cs ih =>
    cases k with
    | zero => rfl
    | succ k => exact ih (serve s c).2 k

/-- States that are alike and stay so while they are served give the same answers. -/
theorem serveAll_alike {alike : σ → τ → Prop}
    (h : ∀ {s t} c, alike s t → (serve' t c).1 = (serve s c).1 ∧ alike (serve s c).2 (serve' t c).2)
    {s : σ} {t : τ} (hst : alike s t) (cs : List κ) :
    (serveAll serve' t cs).1 = (serveAll serve s cs).1 ∧
      alike (serveAll serve s cs).2 (serveAll serve' t cs).2 := by
  induction cs generalizing s t with
  | nil => exact ⟨rfl, hst⟩
  | cons c cs ih =>
    obtain ⟨hanswer, hnext⟩ := h c hst
    obtain ⟨hanswers, hlast⟩ := ih hnext
    exact ⟨congrArg₂ List.cons hanswer hanswers, hlast⟩

end Serving

namespace Numbering

/-- Numbers texts one after another. -/
def insertAll (n : Numbering) (ss : List String) : Numbering := ss.foldl insert n

theorem insertAll_append (n : Numbering) (ss ts : List String) :
    n.insertAll (ss ++ ts) = (n.insertAll ss).insertAll ts := by
  simp [insertAll]

theorem eraseDups_concat (ss : List String) (s : String) :
    (ss ++ [s]).eraseDups = if s ∈ ss then ss.eraseDups else ss.eraseDups ++ [s] := by
  rw [List.eraseDups_append]
  by_cases h : s ∈ ss <;> simp [List.removeAll, h, List.eraseDups_cons]

theorem eraseDups_of_nodup {ss : List String} (h : ss.Nodup) : ss.eraseDups = ss := by
  induction ss using List.reverseRecOn with
  | nil => rfl
  | append_singleton ss s ih =>
    have hs : s ∉ ss := fun hm => List.disjoint_of_nodup_append h hm (by simp)
    rw [eraseDups_concat, if_neg hs, ih (List.nodup_append.1 h).1]

/-- The place of a text is the number of different texts before its first occurrence. -/
theorem idxOf_eraseDups {ss : List String} {s : String} (h : s ∈ ss) :
    ss.eraseDups.idxOf s = (ss.takeWhile (· != s)).eraseDups.length := by
  obtain ⟨before, after, rfl, hs⟩ := List.eq_append_cons_of_mem h
  have hbefore : (before ++ s :: after).takeWhile (· != s) = before := by
    rw [List.takeWhile_append_of_pos]
    · simp
    · intro a ha
      simp only [bne_iff_ne]
      rintro rfl
      exact hs ha
  have hplace : s ∉ before.eraseDups := by rwa [List.mem_eraseDups]
  have hfirst : (s :: after).removeAll before = s :: after.removeAll before := by
    simp [List.removeAll, hs]
  rw [hbefore, List.eraseDups_append, hfirst, List.eraseDups_cons,
    List.idxOf_append_of_notMem hplace, List.idxOf_cons_self, Nat.add_zero]

theorem texts_insertAll (n : Numbering) (ss : List String) :
    (n.insertAll ss).texts = (n.texts ++ ss).eraseDups := by
  induction ss using List.reverseRecOn with
  | nil => simpa [insertAll] using (eraseDups_of_nodup n.distinct).symm
  | append_singleton ss s ih =>
    have hm : s ∈ (n.insertAll ss).texts ↔ s ∈ n.texts ++ ss := by rw [ih, List.mem_eraseDups]
    rw [insertAll_append, ← List.append_assoc, eraseDups_concat, ← ih]
    simp only [insertAll, List.foldl_cons, List.foldl_nil, texts_insert] at hm ⊢
    simp only [hm]

theorem prefix_insert (n : Numbering) (s : String) : n.texts <+: (n.insert s).texts := by
  rw [texts_insert]
  split
  · exact List.prefix_rfl
  · exact List.prefix_append _ _

theorem prefix_insertAll (n : Numbering) (ss : List String) :
    n.texts <+: (n.insertAll ss).texts := by
  induction ss generalizing n with
  | nil => exact List.prefix_rfl
  | cons s ss ih => exact (prefix_insert n s).trans (ih (n.insert s))

theorem mem_insert_self (n : Numbering) (s : String) : s ∈ (n.insert s).texts := by
  rw [texts_insert]
  split
  · assumption
  · simp

theorem number?_of_mem {n : Numbering} {s : String} (h : s ∈ n.texts) :
    n.number? s = some (n.texts.idxOf s) := by
  rw [number?_eq_some_iff, text?, List.getElem?_eq_getElem (List.idxOf_lt_length_of_mem h),
    List.getElem_idxOf]

theorem texts_insert_of_fresh {n : Numbering} {s : String} (h : s ∉ n.texts) :
    (n.insert s).texts = n.texts ++ [s] := by rw [texts_insert, if_neg h]

theorem number?_insert_of_fresh {n : Numbering} {s : String} (h : s ∉ n.texts) (other : String) :
    (n.insert s).number? other = if s = other then some n.size else n.number? other := by
  have htexts := texts_insert_of_fresh h
  by_cases heq : s = other
  · subst heq
    rw [if_pos rfl, number?_of_mem (n.mem_insert_self s), htexts,
      List.idxOf_append_of_notMem h, List.idxOf_cons_self, Nat.add_zero, size]
  · rw [if_neg heq]
    have hiff : other ∈ (n.insert s).texts ↔ other ∈ n.texts := by
      simp [htexts, Ne.symm heq]
    by_cases hm : other ∈ n.texts
    · rw [number?_of_mem (hiff.2 hm), number?_of_mem hm, htexts, List.idxOf_append_of_mem hm]
    · rw [(number?_eq_none_iff _ other).2 (mt hiff.1 hm), (number?_eq_none_iff _ other).2 hm]

/-- A text has the same number before and after it is asked for, the next free one if it is new. -/
theorem number?_getD_size (n : Numbering) (s : String) :
    (n.number? s).getD n.size = (n.insert s).texts.idxOf s := by
  by_cases h : s ∈ n.texts
  · simp [number?_of_mem h, texts_insert, h]
  · rw [(number?_eq_none_iff n s).2 h, texts_insert, if_neg h, List.idxOf_append_of_notMem h]
    simp [size]

end Numbering

namespace StringTable

/-- A name that is interned can be resolved, as long as the numbers have not run out. -/
theorem file?_internFile {t : StringTable} {s : String} (h : (t.internFile s).2.size < 2 ^ 32) :
    (t.internFile s).2.file? (t.internFile s).1 = some s := by
  have hm : s ∈ (t.numbering.insert s).texts := t.numbering.mem_insert_self s
  have hi : (t.numbering.insert s).texts.idxOf s < 2 ^ 32 :=
    Nat.lt_trans (List.idxOf_lt_length_of_mem hm) h
  simp only [internFile, intern, file?, text?, Numbering.number?_getD_size,
    UInt32.toNat_ofNat_of_lt' hi, Numbering.text?]
  rw [List.getElem?_eq_getElem (List.idxOf_lt_length_of_mem hm), List.getElem_idxOf]

theorem file?_internFile_of_some {t : StringTable} {f : FileId} {name : String} (s : String)
    (h : t.file? f = some name) : (t.internFile s).2.file? f = some name :=
  Numbering.text?_insert_of_some s h

/-- A text that a number stands for is interned under that number, and nothing is added. -/
theorem intern_of_text? {t : StringTable} {n : UInt32} {s : String} (h : t.text? n = some s) :
    t.intern s = (n, t) := by
  have hn : t.numbering.number? s = some n.toNat := (t.numbering.number?_eq_some_iff s _).2 h
  have hm : s ∈ t.numbering.texts := List.mem_of_getElem? h
  have ht : t.numbering.insert s = t.numbering := dif_pos hm
  simp only [intern, hn, ht, Option.getD_some, UInt32.ofNat_toNat]

theorem internFile_of_file? {t : StringTable} {f : FileId} {name : String}
    (h : t.file? f = some name) : t.internFile name = (f, t) := by
  rw [internFile, intern_of_text? h]

theorem size_le_internFile (t : StringTable) (s : String) : t.size ≤ (t.internFile s).2.size :=
  (t.numbering.prefix_insert s).length_le

end StringTable

namespace VariableTable

def names (t : VariableTable) : List String := t.numbering.texts

/-- Asks for names one after another. -/
def requestAll (t : VariableTable) (names : List String) : VariableTable :=
  ⟨t.numbering.insertAll names⟩

/-- The variable called `name` in a frame of these names. -/
def localIn (names : List String) (name : String) : LocalVariable :=
  variableAt name (names.idxOf name)

@[simp] theorem requestAll_nil (t : VariableTable) : t.requestAll [] = t := rfl

theorem requestAll_append (t : VariableTable) (ns ms : List String) :
    t.requestAll (ns ++ ms) = (t.requestAll ns).requestAll ms :=
  congrArg mk (t.numbering.insertAll_append ns ms)

theorem names_requestAll (t : VariableTable) (ns : List String) :
    (t.requestAll ns).names = (t.names ++ ns).eraseDups := t.numbering.texts_insertAll ns

theorem names_requestAll_empty (ns : List String) :
    (empty.requestAll ns).names = ns.eraseDups := names_requestAll empty ns

theorem prefix_requestAll (t : VariableTable) (ns : List String) :
    t.names <+: (t.requestAll ns).names := t.numbering.prefix_insertAll ns

theorem mem_requestAll {t : VariableTable} {ns : List String} {name : String} (h : name ∈ ns) :
    name ∈ (t.requestAll ns).names := by
  rw [names_requestAll, List.mem_eraseDups]
  exact List.mem_append_right _ h

theorem request_eq (t : VariableTable) (name : String) :
    t.request name = (localIn (t.requestAll [name]).names name, t.requestAll [name]) := by
  have hv : (t.find? name).getD (variableAt name t.size) =
      variableAt name ((t.numbering.number? name).getD t.numbering.size) := by
    cases h : t.numbering.number? name <;> simp [find?, h, size]
  simp only [request, hv, Numbering.number?_getD_size]
  rfl

/-- Names keep their variables while a frame grows. -/
theorem localIn_of_longer {ns ms : List String} {name : String} (h : ns <+: ms)
    (hm : name ∈ ns) : localIn ms name = localIn ns name := by
  obtain ⟨rest, rfl⟩ := h
  simp [localIn, List.idxOf_append_of_mem hm]

theorem toList_eq_mapIdx (t : VariableTable) :
    t.toList = t.names.mapIdx fun slot name => ⟨name, 0, .ofNat slot⟩ := by
  simp [toList, names, variableAt, List.mapIdx_eq_zipIdx_map]

/-- Slots are places, as long as they have not run out. -/
theorem toNat_slot {t : VariableTable} (hsize : t.names.length ≤ 2 ^ 32) {slot : Nat}
    {v : LocalVariable} (hv : t.toList[slot]? = some v) : v.slot.toNat = slot := by
  rw [toList_eq_mapIdx, List.getElem?_mapIdx, Option.map_eq_some_iff] at hv
  obtain ⟨name, hname, rfl⟩ := hv
  have hslot := (List.getElem?_eq_some_iff.1 hname).1
  exact UInt32.toNat_ofNat_of_lt' (Nat.lt_of_lt_of_le hslot hsize)

theorem toList_eq (t : VariableTable) : t.toList = t.names.map (localIn t.names) := by
  refine List.ext_getElem (by simp [toList, names]) fun i hi hi' => ?_
  simp only [toList, names, List.getElem_map, List.getElem_zipIdx, localIn, Nat.zero_add]
  rw [t.numbering.distinct.idxOf_getElem]

variable {t t' : VariableTable} {name : String} {v : LocalVariable}

theorem find?_eq_some_iff : t.find? name = some v ↔ name ∈ t.names ∧ v = localIn t.names name := by
  unfold find?
  by_cases hm : name ∈ t.names
  · have hn : t.numbering.number? name = some (t.names.idxOf name) := Numbering.number?_of_mem hm
    rw [hn, Option.map_some, Option.some.injEq]
    exact ⟨fun h => ⟨hm, h.symm⟩, fun h => h.2.symm⟩
  · have hn : t.numbering.number? name = none := (Numbering.number?_eq_none_iff _ _).2 hm
    rw [hn, Option.map_none]
    refine ⟨fun h => ?_, fun h => absurd h.1 hm⟩
    cases h

theorem find?_eq_none_iff : t.find? name = none ↔ name ∉ t.names := by
  rw [find?, Option.map_eq_none_iff, Numbering.number?_eq_none_iff, names]

/-- A name that is bound already is left as it is. -/
theorem request_of_find? (h : t.find? name = some v) : t.request name = (v, t) := by
  have ht : t.numbering.insert name = t.numbering := dif_pos (find?_eq_some_iff.1 h).1
  rw [request, h, ht]
  rfl

/-- A name that is bound stays bound to the same variable. -/
theorem find?_of_longer (h : t.names <+: t'.names) (hv : t.find? name = some v) :
    t'.find? name = some v := by
  obtain ⟨hm, rfl⟩ := find?_eq_some_iff.1 hv
  exact find?_eq_some_iff.2 ⟨h.subset hm, (localIn_of_longer h hm).symm⟩

theorem toList_of_longer (h : t.names <+: t'.names) : t.toList <+: t'.toList := by
  obtain ⟨names, hnames⟩ := h
  rw [toList_eq_mapIdx, toList_eq_mapIdx, ← hnames, List.mapIdx_append]
  exact List.prefix_append _ _

end VariableTable

end MethodIR
