import MethodIR.Proofs.FirstSeen

/-!
The variables that a table gives out. A name has the slot that was free at its first request, however
often it is asked for. The same answers come from a counter and a map, in whatever order the map lists
what it holds.
-/
namespace MethodIR

namespace VariableTable

inductive Call where
  | request (name : String)
  | find (name : String)
deriving DecidableEq

/-- The name that a call gives a slot to. -/
def Call.requested? : Call → Option String
  | .request name => some name
  | .find _ => none

/-- The answer to a call and the table after it. -/
def serve (t : VariableTable) : Call → Option LocalVariable × VariableTable
  | .request name =>
    let (v, t) := t.request name
    (some v, t)
  | .find name => (t.find? name, t)

/-- The table that was empty before the calls. -/
def after (calls : List Call) : VariableTable := (serveAll serve empty calls).2

def requested (calls : List Call) : List String := calls.filterMap Call.requested?

/-- The variable whose slot is the number of different names before the first request for its own. -/
def firstRequested (calls : List Call) (name : String) : LocalVariable :=
  variableAt name ((requested calls).takeWhile (· != name)).eraseDups.length

variable {t : VariableTable} {calls : List Call} {name : String} {k : Nat}

theorem serve_table (t : VariableTable) (c : Call) :
    (t.serve c).2 = t.requestAll c.requested?.toList := by
  cases c with
  | request name =>
    rw [serve, t.request_eq]
    rfl
  | find name => rfl

theorem serveAll_table (t : VariableTable) (calls : List Call) :
    (serveAll serve t calls).2 = t.requestAll (requested calls) := by
  induction calls generalizing t with
  | nil => rfl
  | cons c calls ih =>
    have hrest : requested (c :: calls) = c.requested?.toList ++ requested calls := by
      cases c <;> rfl
    rw [hrest, requestAll_append, ← serve_table]
    exact ih (t.serve c).2

theorem names_after (calls : List Call) : (after calls).names = (requested calls).eraseDups := by
  rw [after, serveAll_table, names_requestAll_empty]

theorem size_after (calls : List Call) :
    (after calls).size = (requested calls).eraseDups.length := by
  rw [← names_after]
  rfl

theorem names_after_take (calls : List Call) (k : Nat) :
    (after (calls.take k)).names <+: (after calls).names := by
  have hsplit : requested calls = requested (calls.take k) ++ requested (calls.drop k) := by
    rw [requested, requested, requested, ← List.filterMap_append, List.take_append_drop]
  rw [after, serveAll_table, after, serveAll_table, hsplit, requestAll_append]
  exact prefix_requestAll _ _

theorem localIn_after (h : name ∈ requested calls) :
    localIn (after calls).names name = firstRequested calls name := by
  rw [localIn, names_after, Numbering.idxOf_eraseDups h, firstRequested]

theorem mem_requested_of_call (h : calls[k]? = some (.request name)) : name ∈ requested calls :=
  List.mem_filterMap.2 ⟨_, List.mem_of_getElem? h, rfl⟩

theorem after_take_succ {c : Call} (h : calls[k]? = some c) :
    after (calls.take (k + 1)) = (serve (after (calls.take k)) c).2 := by
  have hnext : requested (calls.take (k + 1)) =
      requested (calls.take k) ++ c.requested?.toList := by
    rw [requested, List.take_add_one, h, List.filterMap_append]
    cases c <;> rfl
  rw [after, serveAll_table, hnext, requestAll_append, serve_table, after, serveAll_table]

/-- A name has the same variable at every request. -/
theorem answer_request (h : calls[k]? = some (.request name)) :
    (serveAll serve empty calls).1[k]? = some (some (firstRequested calls name)) := by
  have htable : (after (calls.take k)).requestAll [name] = after (calls.take (k + 1)) := by
    rw [after_take_succ h, serve_table]
    rfl
  have hm : name ∈ (after (calls.take (k + 1))).names := by
    rw [← htable]
    exact mem_requestAll (List.mem_singleton_self name)
  have hanswer : (serve (after (calls.take k)) (.request name)).1 =
      some (localIn (after (calls.take (k + 1))).names name) := by
    rw [serve, request_eq, htable]
  rw [getElem?_serveAll, h, Option.map_some, ← after, hanswer,
    ← localIn_of_longer (names_after_take calls (k + 1)) hm,
    localIn_after (mem_requested_of_call h)]

/-- A name is found from its first request on. -/
theorem answer_find (h : calls[k]? = some (.find name)) :
    (serveAll serve empty calls).1[k]? = some (if name ∈ requested (calls.take k)
      then some (firstRequested calls name) else none) := by
  rw [getElem?_serveAll, h, Option.map_some, ← after, serve]
  have hmem : name ∈ (after (calls.take k)).names ↔ name ∈ requested (calls.take k) := by
    rw [names_after, List.mem_eraseDups]
  by_cases hm : name ∈ requested (calls.take k)
  · have hlonger := names_after_take calls k
    have hrequested : name ∈ requested calls := by
      rw [← List.mem_eraseDups, ← names_after]
      exact hlonger.subset (hmem.2 hm)
    have hfind := find?_eq_some_iff.2 ⟨hmem.2 hm, rfl⟩
    rw [if_pos hm, hfind, ← localIn_of_longer hlonger (hmem.2 hm), localIn_after hrequested]
  · have hfind : (after (calls.take k)).find? name = none := by
      rw [Option.eq_none_iff_forall_ne_some]
      intro v hv
      exact hm (hmem.1 (find?_eq_some_iff.1 hv).1)
    rw [if_neg hm, hfind]

theorem localIn_of_fresh (h : name ∉ t.names) :
    localIn (t.names ++ [name]) name = ⟨name, 0, .ofNat t.size⟩ := by
  rw [localIn, List.idxOf_append_of_notMem h, List.idxOf_cons_self, Nat.add_zero, variableAt]
  rfl

theorem find?_request_of_fresh (h : name ∉ t.names) (other : String) :
    (t.requestAll [name]).find? other =
      if name = other then some ⟨name, 0, .ofNat t.size⟩ else t.find? other := by
  have hnumber : (t.requestAll [name]).numbering.number? other = _ :=
    Numbering.number?_insert_of_fresh h other
  rw [find?, hnumber]
  split
  · rename_i heq
    subst heq
    rfl
  · rfl

/-! A counter and a map. -/

/-- A table that is kept as a counter and a map from names. -/
structure SlotMap where
  next : UInt32
  bound : Std.HashMap String LocalVariable

namespace SlotMap

def empty : SlotMap := ⟨0, ∅⟩

def serve (m : SlotMap) : Call → Option LocalVariable × SlotMap
  | .request name =>
    match m.bound[name]? with
    | some v => (some v, m)
    | none =>
      let v : LocalVariable := ⟨name, 0, m.next⟩
      (some v, ⟨m.next + 1, m.bound.insert name v⟩)
  | .find name => (m.bound[name]?, m)

def size (m : SlotMap) : Nat := m.next.toNat

def isEmpty (m : SlotMap) : Bool := m.next == 0

/-- What the map lists, sorted by the slots. -/
def sorted (listing : List (String × LocalVariable)) : List LocalVariable :=
  (listing.map (·.2)).mergeSort fun v w => v.slot ≤ w.slot

/-- The counter has come to the size of the table, and the map holds its variables under their
names. -/
structure Holds (t : VariableTable) (m : SlotMap) : Prop where
  next : m.next = .ofNat t.size
  bound : ∀ name, m.bound[name]? = t.find? name

variable {m : SlotMap}

theorem holds_empty : Holds .empty empty := ⟨rfl, fun _ => Std.HashMap.getElem?_empty⟩

theorem Holds.serve (c : Call) (h : Holds t m) :
    (m.serve c).1 = (t.serve c).1 ∧ Holds (t.serve c).2 (m.serve c).2 := by
  cases c with
  | find name => exact ⟨h.bound name, h⟩
  | request name =>
    cases hv : t.find? name with
    | some v =>
      have hserved : t.serve (.request name) = (some v, t) := by
        rw [VariableTable.serve, request_of_find? hv]
      have hkept : m.serve (.request name) = (some v, m) := by
        simp only [SlotMap.serve, h.bound, hv]
      rw [hserved, hkept]
      exact ⟨rfl, h⟩
    | none =>
      have hfresh : name ∉ t.names := find?_eq_none_iff.1 hv
      have hnames : (t.requestAll [name]).names = t.names ++ [name] :=
        Numbering.texts_insert_of_fresh hfresh
      have hvariable : localIn (t.names ++ [name]) name = ⟨name, 0, m.next⟩ := by
        rw [localIn_of_fresh hfresh, h.next]
      have hsize : (t.requestAll [name]).size = t.size + 1 := by
        change (t.requestAll [name]).names.length = t.names.length + 1
        rw [hnames, List.length_append, List.length_singleton]
      have hserved : t.serve (.request name) = (some ⟨name, 0, m.next⟩, t.requestAll [name]) := by
        rw [VariableTable.serve, request_eq, hnames, hvariable]
      have hkept : m.serve (.request name) =
          (some ⟨name, 0, m.next⟩, ⟨m.next + 1, m.bound.insert name ⟨name, 0, m.next⟩⟩) := by
        simp only [SlotMap.serve, h.bound, hv]
      rw [hserved, hkept]
      refine ⟨rfl, ?_, fun other => ?_⟩
      · rw [h.next, hsize, UInt32.ofNat_add]
        rfl
      · rw [find?_request_of_fresh hfresh, Std.HashMap.getElem?_insert, h.bound, ← h.next]
        simp only [beq_iff_eq]

/-- All variables are listed with their names, in some order. -/
theorem Holds.perm (h : Holds t m) :
    m.bound.toList.Perm (t.names.map fun name => (name, localIn t.names name)) := by
  have hlisted : m.bound.toList.Nodup := by
    refine Std.HashMap.distinct_keys_toList.imp fun hne heq => ?_
    simp [heq] at hne
  have hnames : (t.names.map fun name => (name, localIn t.names name)).Nodup := by
    refine List.Nodup.map (fun name other heq => ?_) t.numbering.distinct
    exact congrArg Prod.fst heq
  rw [List.perm_ext_iff_of_nodup hlisted hnames]
  rintro ⟨name, v⟩
  rw [Std.HashMap.mem_toList_iff_getElem?_eq_some, h.bound, find?_eq_some_iff, List.mem_map]
  constructor
  · rintro ⟨hm, rfl⟩
    exact ⟨name, hm, rfl⟩
  · rintro ⟨name', hm, heq⟩
    cases heq
    exact ⟨hm, rfl⟩

/-- No two variables of a table share a slot, so there is one way only to sort them. -/
theorem Holds.sorted (h : Holds t m) (hsize : t.size ≤ 2 ^ 32)
    {listing : List (String × LocalVariable)} (hl : listing.Perm m.bound.toList) :
    sorted listing = t.toList := by
  have hvariables : (listing.map (·.2)).Perm t.toList := by
    have hmap := (hl.trans h.perm).map (·.2)
    rw [List.map_map] at hmap
    rw [toList_eq]
    exact hmap
  have hperm : (SlotMap.sorted listing).Perm t.toList :=
    (List.mergeSort_perm _ _).trans hvariables
  have hplace : ∀ {i : Nat} {v : LocalVariable}, t.toList[i]? = some v → v.slot.toNat = i :=
    toNat_slot hsize
  have hslots : t.toList.Pairwise fun v w => v.slot ≤ w.slot := by
    rw [List.pairwise_iff_getElem]
    intro i j hi hj hij
    rw [UInt32.le_iff_toNat_le, hplace (List.getElem?_eq_getElem hi),
      hplace (List.getElem?_eq_getElem hj)]
    exact Nat.le_of_lt hij
  have hordered : (SlotMap.sorted listing).Pairwise fun v w => v.slot ≤ w.slot := by
    have htrans : ∀ u v w : LocalVariable, decide (u.slot ≤ v.slot) → decide (v.slot ≤ w.slot) →
        decide (u.slot ≤ w.slot) := by
      simp only [decide_eq_true_eq]
      exact fun u v w => UInt32.le_trans
    have htotal : ∀ v w : LocalVariable, decide (v.slot ≤ w.slot) || decide (w.slot ≤ v.slot) := by
      simp only [Bool.or_eq_true, decide_eq_true_eq]
      exact fun v w => UInt32.le_total v.slot w.slot
    have hmerge := List.pairwise_mergeSort htrans htotal (listing.map (·.2))
    simpa only [SlotMap.sorted, decide_eq_true_eq] using hmerge
  refine List.Perm.eq_of_pairwise (fun v w hv hw hvw hwv => ?_) hordered hslots hperm
  obtain ⟨i, hi⟩ := List.getElem?_of_mem (hperm.subset hv)
  obtain ⟨j, hj⟩ := List.getElem?_of_mem hw
  have hslot : v.slot = w.slot := UInt32.le_antisymm hvw hwv
  have hij : i = j := by rw [← hplace hi, ← hplace hj, hslot]
  rw [hij, hj] at hi
  exact Option.some.inj hi.symm

/-- The same calls have the same answers, in the end too. -/
theorem serveAll_eq (calls : List Call) (hsize : (after calls).size < 2 ^ 32) :
    (serveAll SlotMap.serve empty calls).1 = (serveAll VariableTable.serve .empty calls).1 ∧
      (serveAll SlotMap.serve empty calls).2.size = (after calls).size ∧
      (serveAll SlotMap.serve empty calls).2.isEmpty = (after calls).isEmpty ∧
      ∀ listing, listing.Perm (serveAll SlotMap.serve empty calls).2.bound.toList →
        sorted listing = (after calls).toList := by
  obtain ⟨hanswers, hholds⟩ := serveAll_alike (fun c h => Holds.serve c h) holds_empty calls
  have hnext : (serveAll SlotMap.serve empty calls).2.next.toNat = (after calls).size := by
    rw [hholds.next]
    exact UInt32.toNat_ofNat_of_lt' hsize
  refine ⟨hanswers, hnext, ?_, fun listing hl => hholds.sorted (Nat.le_of_lt hsize) hl⟩
  rw [isEmpty, VariableTable.isEmpty, ← hnext, Bool.eq_iff_iff, beq_iff_eq, beq_iff_eq]
  exact UInt32.toNat_inj.symm

end SlotMap

/-- Calls on a new table. A name has the same variable at every request: its slot is the number of
different names before its first request. From then on it is found, and looking for a name changes
nothing. The table has as many variables as names were requested, in that order. Kept as a counter
and a map it gives the same answers, and the same list in whatever order the map lists its content. -/
theorem slots_by_first_request (calls : List Call)
    (hsize : (requested calls).eraseDups.length < 2 ^ 32) :
    (∀ (k : Nat) name, calls[k]? = some (.request name) →
      (serveAll serve empty calls).1[k]? = some (some (firstRequested calls name))) ∧
    (∀ name ∈ requested calls,
      (firstRequested calls name).name = name ∧ (firstRequested calls name).depth = 0 ∧
        (firstRequested calls name).slot.toNat =
          ((requested calls).takeWhile (· != name)).eraseDups.length) ∧
    (∀ (k : Nat) name, calls[k]? = some (.find name) →
      (serveAll serve empty calls).1[k]? = some (if name ∈ requested (calls.take k)
        then some (firstRequested calls name) else none) ∧
      after (calls.take (k + 1)) = after (calls.take k)) ∧
    (after calls).size = (requested calls).eraseDups.length ∧
    ((after calls).isEmpty ↔ (requested calls).eraseDups.length = 0) ∧
    (after calls).toList =
      (requested calls).eraseDups.mapIdx (fun slot name => ⟨name, 0, .ofNat slot⟩) ∧
    (∀ (slot : Nat) v, (after calls).toList[slot]? = some v → v.slot.toNat = slot) ∧
    (serveAll SlotMap.serve .empty calls).1 = (serveAll serve empty calls).1 ∧
    (serveAll SlotMap.serve .empty calls).2.size = (after calls).size ∧
    (serveAll SlotMap.serve .empty calls).2.isEmpty = (after calls).isEmpty ∧
    ∀ listing, listing.Perm (serveAll SlotMap.serve .empty calls).2.bound.toList →
      SlotMap.sorted listing = (after calls).toList := by
  have hnames : (after calls).names.length < 2 ^ 32 := by rwa [names_after]
  refine ⟨fun k name => answer_request, fun name hm => ⟨rfl, rfl, ?_⟩, fun k name hk => ?_,
    size_after calls, ?_, ?_, fun slot v => toNat_slot (Nat.le_of_lt hnames),
    SlotMap.serveAll_eq calls hnames⟩
  · have hplace : ((requested calls).takeWhile (· != name)).eraseDups.length < 2 ^ 32 := by
      rw [← Numbering.idxOf_eraseDups hm]
      exact Nat.lt_trans (List.idxOf_lt_length_of_mem (List.mem_eraseDups.2 hm)) hsize
    exact UInt32.toNat_ofNat_of_lt' hplace
  · exact ⟨answer_find hk, after_take_succ hk⟩
  · rw [isEmpty, beq_iff_eq, size_after]
  · rw [toList_eq_mapIdx, names_after]

/-- A name that is looked for too early, one that is requested twice, and a reserved one. -/
theorem slots_by_first_request_mixed :
    let calls : List Call := [.request "x", .find "y", .request blockName, .request "y",
      .request "x", .find "y"]
    (requested calls).eraseDups.length < 2 ^ 32 ∧
      (serveAll serve empty calls).1[4]? = some (some ⟨"x", 0, 0⟩) ∧
      (serveAll serve empty calls).1[1]? = some none ∧
      (serveAll serve empty calls).1[5]? = some (some ⟨"y", 0, 2⟩) ∧
      ∀ listing, listing.Perm (serveAll SlotMap.serve .empty calls).2.bound.toList →
        SlotMap.sorted listing = [⟨"x", 0, 0⟩, ⟨blockName, 0, 1⟩, ⟨"y", 0, 2⟩] := by
  intro calls
  have hsize : (requested calls).eraseDups.length < 2 ^ 32 := by decide
  obtain ⟨hrequest, -, hfind, -, -, hlist, -, -, -, -, hsorted⟩ := slots_by_first_request calls hsize
  refine ⟨hsize, hrequest 4 "x" rfl, (hfind 1 "y" rfl).1, (hfind 5 "y" rfl).1,
    fun listing hl => ?_⟩
  rw [hsorted listing hl, hlist]
  rfl

end VariableTable

end MethodIR
