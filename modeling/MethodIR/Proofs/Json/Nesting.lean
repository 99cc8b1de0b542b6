import MethodIR.Json.Decoder
import MethodIR.Proofs.Json.Layout

/-!
How deep a value is, and what comes of it when it is read with a limit: the value, or the fault that
it is too deep.
-/
namespace MethodIR.Json

variable {α β ε : Type} {e : ε} {levels : Nat}

mutual

/-- How many lists and objects contain one another in a value. -/
def depth : Json → Nat
  | .null | .boolean _ | .number _ | .text _ => 0
  | .list items => itemsDepth items + 1
  | .object members => membersDepth members + 1

def itemsDepth : List Json → Nat
  | [] => 0
  | j :: js => max (depth j) (itemsDepth js)

def membersDepth : List (String × Json) → Nat
  | [] => 0
  | (_, j) :: ms => max (depth j) (membersDepth ms)

end

theorem itemsDepth_le_iff {js : List Json} :
    itemsDepth js ≤ levels ↔ ∀ j ∈ js, j.depth ≤ levels := by
  induction js with
  | nil => simp [itemsDepth]
  | cons j js ih => rw [itemsDepth, Nat.max_le, ih, List.forall_mem_cons]

theorem membersDepth_le_iff {ms : List (String × Json)} :
    membersDepth ms ≤ levels ↔ ∀ m ∈ ms, m.2.depth ≤ levels := by
  induction ms with
  | nil => simp [membersDepth]
  | cons m ms ih => rw [membersDepth, Nat.max_le, ih, List.forall_mem_cons]

theorem depth_list_map_le {encode : α → Json} (h : ∀ a, (encode a).depth ≤ levels) (as : List α) :
    (list (as.map encode)).depth ≤ levels + 1 := by
  refine Nat.succ_le_succ (itemsDepth_le_iff.2 fun j hj => ?_)
  obtain ⟨a, -, rfl⟩ := List.mem_map.1 hj
  exact h a

theorem optional_eq_null_iff {encode : α → Json} (hne : ∀ a, encode a ≠ .null) {a? : Option α} :
    Json.optional encode a? = .null ↔ a? = none := by
  cases a? with
  | none => exact ⟨fun _ => rfl, fun _ => rfl⟩
  | some a =>
    refine ⟨fun h => absurd h (hne a), fun h => ?_⟩
    cases h

/-- What was read of something so deep: `a`, or the error `e` past the limit. -/
def limited (e : ε) (levels depth : Nat) (a : α) : Except ε α :=
  if depth ≤ levels then .ok a else .error e

theorem limited_flat (e : ε) (levels : Nat) (a : α) : limited e levels 0 a = .ok a :=
  if_pos (Nat.zero_le levels)

theorem limited_zero (e : ε) (depth : Nat) (a : α) : limited e 0 (depth + 1) a = .error e :=
  if_neg (Nat.not_succ_le_zero depth)

theorem limited_succ (e : ε) (levels depth : Nat) (a : α) :
    limited e (levels + 1) (depth + 1) a = limited e levels depth a := by
  simp only [limited, Nat.add_le_add_iff_right]

/-- One part after another: all of it is as deep as the deepest part. -/
theorem limited_bind {m n : Nat} {a : α} {b : β} {f : α → Except ε β}
    (hf : f a = limited e levels n b) :
    (limited e levels m a >>= f) = limited e levels (max m n) b := by
  by_cases hm : m ≤ levels
  · have hlast : (limited e levels m a >>= f) = f a := by
      rw [limited, if_pos hm]
      rfl
    rw [hlast, hf]
    simp only [limited, Nat.max_le, hm, true_and]
  · simp only [limited, Nat.max_le, hm, false_and, if_false]
    rfl

theorem limited_bind_same {n : Nat} {a : α} {b : β} {f : α → Except ε β}
    (hf : f a = limited e levels n b) :
    (limited e levels n a >>= f) = limited e levels n b := by
  have hbind := limited_bind hf (m := n)
  rwa [Nat.max_self] at hbind

theorem limited_bind_pure (e : ε) (levels depth : Nat) (a : α) (f : α → β) :
    (limited e levels depth a >>= fun a => pure (f a)) = limited e levels depth (f a) := by
  unfold limited
  split <;> rfl

theorem limited_map (e : ε) (levels depth : Nat) (a : α) (f : α → β) :
    (limited e levels depth a).map f = limited e levels depth (f a) := by
  unfold limited
  split <;> rfl

theorem eq_of_limited {depth : Nat} {a b : α} (h : limited e levels depth a = .ok b) : a = b := by
  unfold limited at h
  split at h
  · exact Except.ok.inj h
  · cases h

theorem ofFault_limited (f : Fault) (levels depth : Nat) (a : α) :
    ofFault (limited f levels depth a) = limited (.fault f) levels depth a := by
  unfold limited
  split <;> rfl

theorem within_limited (depth : Nat) (a : α) :
    within levels (fun inner => limited (.fault .tooDeep) inner depth a) =
      limited (.fault .tooDeep) levels (depth + 1) a := by
  cases levels with
  | zero => exact (limited_zero _ depth a).symm
  | succ levels => exact (limited_succ _ levels depth a).symm

theorem within_eq_ok_iff {inside : Nat → Except Error α} {a : α} :
    within levels inside = .ok a ↔ ∃ inner, levels = inner + 1 ∧ inside inner = .ok a := by
  cases levels with
  | zero => simp [within]
  | succ levels => simp [within]

namespace Document

mutual

theorem value_ofJson {j : Json} (h : j.Readable) (levels : Nat) :
    value levels (ofJson j) = limited .tooDeep levels j.depth j := by
  cases j with
  | null | boolean | text =>
    rw [ofJson, value, depth]
    exact (limited_flat _ levels _).symm
  | number l =>
    obtain ⟨x, hx⟩ := h.2
    rw [ofJson, value, depth, hx]
    exact (limited_flat _ levels _).symm
  | list items =>
    rw [ofJson, depth]
    cases levels with
    | zero => exact (limited_zero _ _ _).symm
    | succ levels =>
      rw [value, values_ofItems h levels, limited_succ]
      exact limited_bind_pure _ levels _ items Json.list
  | object members =>
    rw [ofJson, depth]
    cases levels with
    | zero => exact (limited_zero _ _ _).symm
    | succ levels =>
      rw [value, values_ofMembers h levels, limited_succ]
      exact limited_bind_pure _ levels _ members Json.object

theorem values_ofItems {js : List Json} (h : ItemsReadable js) (levels : Nat) :
    (ofItems js).mapM (value levels) = limited .tooDeep levels (itemsDepth js) js := by
  cases js with
  | nil => exact (limited_flat _ levels _).symm
  | cons j js =>
    rw [ofItems, List.mapM_cons, value_ofJson h.1 levels, values_ofItems h.2 levels, itemsDepth]
    exact limited_bind (limited_bind_pure _ levels _ js (j :: ·))

theorem values_ofMembers {ms : List (String × Json)} (h : MembersReadable ms) (levels : Nat) :
    ((ofMembers ms).mapM fun (key, d) => do
      let key ← key.read
      let j ← value levels d
      pure (key, j)) = limited .tooDeep levels (membersDepth ms) ms := by
  cases ms with
  | nil => exact (limited_flat _ levels _).symm
  | cons m ms =>
    obtain ⟨key, j⟩ := m
    rw [ofMembers, List.mapM_cons, values_ofMembers h.2 levels, membersDepth]
    have hmember : (do
        let key ← (Key.name key).read
        let j ← value levels (ofJson j)
        pure (key, j)) = limited .tooDeep levels j.depth (key, j) := by
      rw [value_ofJson h.1 levels]
      exact limited_bind_pure _ levels _ j (key, ·)
    simp only [hmember]
    exact limited_bind (limited_bind_pure _ levels _ ms ((key, j) :: ·))

end

theorem readWhole_ofJson {j : Json} (h : j.Readable) (levels : Nat) :
    (ofJson j).readWhole levels = limited (.fault .tooDeep) levels j.depth (ofJson j) := by
  rw [readWhole, value_ofJson h levels, limited_map, ofFault_limited]

/-! What has been read whole can be read. -/

mutual

theorem readable_of_value {j : Json} (h : j.Valid) (levels : Nat) {read : Json}
    (hread : value levels (ofJson j) = .ok read) : j.Readable := by
  cases j with
  | null | boolean | text => trivial
  | number l =>
    rw [ofJson, value] at hread
    obtain ⟨x, hx, -⟩ := bind_eq_ok_iff.1 hread
    exact ⟨h, x, hx⟩
  | list items =>
    cases levels with
    | zero => cases hread
    | succ levels =>
      rw [ofJson, value] at hread
      obtain ⟨_, hitems, -⟩ := bind_eq_ok_iff.1 hread
      exact readable_of_values h levels hitems
  | object members =>
    cases levels with
    | zero => cases hread
    | succ levels =>
      rw [ofJson, value] at hread
      obtain ⟨_, hmembers, -⟩ := bind_eq_ok_iff.1 hread
      exact readable_of_members h levels hmembers

theorem readable_of_values {js : List Json} (h : ItemsNumbers Literal.WellFormed js) (levels : Nat)
    {read : List Json} (hread : (ofItems js).mapM (value levels) = .ok read) :
    ItemsReadable js := by
  cases js with
  | nil => trivial
  | cons j js =>
    rw [ofItems, List.mapM_cons] at hread
    obtain ⟨_, hfirst, hread⟩ := bind_eq_ok_iff.1 hread
    obtain ⟨_, hrest, -⟩ := bind_eq_ok_iff.1 hread
    exact ⟨readable_of_value h.1 levels hfirst, readable_of_values h.2 levels hrest⟩

theorem readable_of_members {ms : List (String × Json)}
    (h : MembersNumbers Literal.WellFormed ms) (levels : Nat) {read : List (String × Json)}
    (hread : ((ofMembers ms).mapM fun (key, d) => do
      let key ← key.read
      let j ← value levels d
      pure (key, j)) = .ok read) : MembersReadable ms := by
  cases ms with
  | nil => trivial
  | cons m ms =>
    rw [ofMembers, List.mapM_cons] at hread
    obtain ⟨_, hmember, hread⟩ := bind_eq_ok_iff.1 hread
    obtain ⟨_, hrest, -⟩ := bind_eq_ok_iff.1 hread
    obtain ⟨_, -, hmember⟩ := bind_eq_ok_iff.1 hmember
    obtain ⟨_, hfirst, -⟩ := bind_eq_ok_iff.1 hmember
    exact ⟨readable_of_value h.1 levels hfirst, readable_of_members h.2 levels hrest⟩

end

theorem readWhole_eq_ok {j : Json} (h : j.Valid) {d : Document}
    (hd : (ofJson j).readWhole levels = .ok d) : j.Readable ∧ d = ofJson j := by
  obtain ⟨_, hread, -⟩ := map_eq_ok_iff.1 (mapError_eq_ok_iff.1 hd)
  have hreadable := readable_of_value h levels hread
  rw [readWhole_ofJson hreadable] at hd
  exact ⟨hreadable, (eq_of_limited hd).symm⟩

theorem readWhole_items_eq_ok {js : List Json} (h : ItemsNumbers Literal.WellFormed js)
    {ds : List Document} (hds : (ofItems js).mapM (·.readWhole levels) = .ok ds) :
    ItemsReadable js ∧ ds = ofItems js := by
  induction js generalizing ds with
  | nil =>
    cases hds
    exact ⟨trivial, rfl⟩
  | cons j js ih =>
    rw [ofItems, List.mapM_cons] at hds
    obtain ⟨d, hd, hds⟩ := bind_eq_ok_iff.1 hds
    obtain ⟨ds, hrest, hcons⟩ := bind_eq_ok_iff.1 hds
    cases hcons
    obtain ⟨hreadable, rfl⟩ := readWhole_eq_ok h.1 hd
    obtain ⟨hothers, rfl⟩ := ih h.2 hrest
    exact ⟨⟨hreadable, hothers⟩, rfl⟩

end Document

/-! Numbers. -/

theorem Literal.number_ofInt {n : Int} (hleast : -0x8000000000000000 ≤ n)
    (hgreatest : n < 0x10000000000000000) : (ofInt n).number = .ok (.integer n) := by
  have hvalue : (ofInt n).integer = n := by
    simp only [ofInt, integer, decide_eq_true_eq]
    split <;> omega
  have hfits : (if n < 0 then n.natAbs != 0 && decide (n.natAbs ≤ 0x8000000000000000)
      else decide (n.natAbs < UInt64.size)) = true := by
    split
    · simp
      omega
    · simp [UInt64.size]
      omega
  have hinteger : (ofInt n).isInteger = true := rfl
  rw [number, hvalue, hinteger, Bool.true_and]
  refine if_pos ?_
  simp only [ofInt, decide_eq_true_eq]
  exact hfits

theorem readable_int {n : Int} (hleast : -0x8000000000000000 ≤ n)
    (hgreatest : n < 0x10000000000000000) : (int n).Readable :=
  And.intro (fun _ h => nomatch h) ⟨_, Literal.number_ofInt hleast hgreatest⟩

/-! Decoders. -/

/-- The decoder reads `j` as `a` if it may go that deep. -/
def Decoder.Reads (decode : Decoder α) (levels : Nat) (j : Json) (a : α) : Prop :=
  ∀ stage, decode stage levels (.ofJson j) = limited (.fault .tooDeep) levels j.depth a

/-- At a limit, the decoder reads what `encode` writes, and accepts nothing that `encode` writes
deeper than the limit. -/
structure Decoder.Inverts (decode : Decoder α) (levels : Nat) (encode : α → Json) : Prop where
  readable : ∀ a, (encode a).Readable
  reads : ∀ a, decode.Reads levels (encode a) a
  bounded : ∀ {stage d a}, decode stage levels d = .ok a → (encode a).depth ≤ levels

namespace Decoder

theorem Reads.map {decode : Decoder α} {j : Json} {a : α} (h : decode.Reads levels j a)
    (f : α → β) : (decode.map f).Reads levels j (f a) := by
  intro stage
  rw [Decoder.map, h stage, limited_map]

theorem inverts_text (levels : Nat) : Decoder.text.Inverts levels .text where
  readable _ := trivial
  reads s _ := (limited_flat _ levels s).symm
  bounded _ := Nat.zero_le levels

theorem inverts_boolean (levels : Nat) : Decoder.boolean.Inverts levels .boolean where
  readable _ := trivial
  reads b _ := (limited_flat _ levels b).symm
  bounded _ := Nat.zero_le levels

/-- Values that are made of what is decoded, and are written as that is. -/
theorem Inverts.map {decode : Decoder α} {encode : α → Json} (h : decode.Inverts levels encode)
    {make : α → β} {write : β → Json} (parts : β → α) (hmake : ∀ b, make (parts b) = b)
    (hwrite : ∀ a, write (make a) = encode a) : (decode.map make).Inverts levels write where
  readable b := by
    rw [← hmake b, hwrite]
    exact h.readable (parts b)
  reads b := by
    rw [← hmake b, hwrite]
    exact (h.reads (parts b)).map make
  bounded hb := by
    obtain ⟨a, ha, rfl⟩ := map_eq_ok_iff.1 hb
    rw [hwrite]
    exact h.bounded ha

theorem nullable_ofJson (decode : Decoder α) (stage : Stage) (levels : Nat) {j : Json}
    (hj : j ≠ .null) :
    decode.nullable stage levels (.ofJson j) = (decode stage levels (.ofJson j)).map some := by
  cases j with
  | null => exact absurd rfl hj
  | _ => rfl

/-- Nothing at all is written as null, which no value is written as. -/
theorem inverts_nullable {decode : Decoder α} {encode : α → Json}
    (h : decode.Inverts levels encode) (hne : ∀ a, encode a ≠ .null) :
    decode.nullable.Inverts levels (Json.optional encode) where
  readable a? := by
    cases a? with
    | none => trivial
    | some a => exact h.readable a
  reads a? stage := by
    cases a? with
    | none => exact (limited_flat _ levels _).symm
    | some a => exact (nullable_ofJson decode stage levels (hne a)).trans ((h.reads a).map some stage)
  bounded {stage d a?} ha := by
    cases a? with
    | none => exact Nat.zero_le levels
    | some a =>
      cases d with
      | null => cases ha
      | _ =>
        obtain ⟨a', ha, heq⟩ := map_eq_ok_iff.1 ha
        cases heq
        exact h.bounded ha

theorem reads_integer (least greatest : Int) (wanted : String) (levels : Nat) {n : Int}
    (h : least ≤ n ∧ n ≤ greatest) (hleast : -0x8000000000000000 ≤ n)
    (hgreatest : n < 0x10000000000000000) : (Decoder.integer least greatest wanted).Reads levels
      (.int n) n := by
  intro stage
  have hread : Decoder.integer least greatest wanted stage levels (.number (.ofInt n)) = .ok n := by
    simp only [Decoder.integer, Literal.number_ofInt hleast hgreatest, if_pos h]
  exact hread.trans (limited_flat _ levels n).symm

theorem inverts_u32 (levels : Nat) : Decoder.u32.Inverts levels fun n => .nat n.toNat where
  readable n := by
    have hn : n.toNat < 0x100000000 := n.toNat_lt
    exact readable_int (by omega) (by omega)
  reads n := by
    have hn : n.toNat < 0x100000000 := n.toNat_lt
    have hread := reads_integer 0 0xffffffff "u32" levels (n := n.toNat) (by omega) (by omega)
      (by omega)
    have hmap := hread.map fun n => UInt32.ofNat n.toNat
    have hback : UInt32.ofNat (n.toNat : Int).toNat = n := by simp
    rw [hback] at hmap
    exact hmap
  bounded _ := Nat.zero_le levels

theorem inverts_i64 (levels : Nat) : Decoder.i64.Inverts levels fun n => .int n.toInt where
  readable n := readable_int n.le_toInt (Int.lt_trans n.toInt_lt (by decide))
  reads n := by
    have hleast : Int64.minValue.toInt ≤ n.toInt := n.minValue_le_toInt
    have hgreatest : n.toInt ≤ Int64.maxValue.toInt := n.toInt_le
    have hread := reads_integer _ _ "i64" levels ⟨hleast, hgreatest⟩ n.le_toInt
      (Int.lt_trans n.toInt_lt (by decide))
    have hmap := hread.map Int64.ofInt
    have hback : Int64.ofInt n.toInt = n := by simp
    rw [hback] at hmap
    exact hmap
  bounded _ := Nat.zero_le levels

variable {decode : Decoder α} {encode : α → Json}

theorem items_of_reads (h : decode.Inverts levels encode) (stage : Stage) (as : List α) :
    (Document.ofItems (as.map encode)).mapM (decode stage levels) =
      limited (.fault .tooDeep) levels (itemsDepth (as.map encode)) as := by
  induction as with
  | nil => exact (limited_flat _ levels _).symm
  | cons a as ih =>
    rw [List.map_cons, Document.ofItems, List.mapM_cons, h.reads a stage, ih, itemsDepth]
    exact limited_bind (limited_bind_pure _ levels _ as (a :: ·))

theorem itemsDepth_of_mapM (h : decode.Inverts levels encode) {stage : Stage}
    {items : List Document} {as : List α} (ha : items.mapM (decode stage levels) = .ok as) :
    itemsDepth (as.map encode) ≤ levels := by
  induction items generalizing as with
  | nil =>
    cases ha
    exact Nat.zero_le levels
  | cons d items ih =>
    rw [List.mapM_cons] at ha
    obtain ⟨a, hfirst, hrest⟩ := bind_eq_ok_iff.1 ha
    obtain ⟨as, hlast, hcons⟩ := bind_eq_ok_iff.1 hrest
    cases hcons
    exact Nat.max_le.2 ⟨h.bounded hfirst, ih hlast⟩

theorem inverts_list (h : ∀ levels, decode.Inverts levels encode) (levels : Nat) :
    (Decoder.list decode).Inverts levels fun as => .list (as.map encode) where
  readable as := by
    change ItemsReadable (as.map encode)
    induction as with
    | nil => trivial
    | cons a as ih => exact ⟨(h levels).readable a, ih⟩
  reads as stage := by
    have hinside : ∀ inner, (do
        let values ← (Document.ofItems (as.map encode)).mapM (decode stage inner)
        ofFault ListEnd.closed.check
        pure values) = limited (.fault .tooDeep) inner (itemsDepth (as.map encode)) as := by
      intro inner
      rw [items_of_reads (h inner)]
      exact limited_bind_pure _ inner _ as id
    rw [depth, ← within_limited]
    simp only [← hinside]
    rfl
  bounded {stage d as} ha := by
    cases d with
    | list items ending =>
      obtain ⟨inner, rfl, ha⟩ := within_eq_ok_iff.1 ha
      obtain ⟨values, hvalues, ha⟩ := bind_eq_ok_iff.1 ha
      obtain ⟨-, -, ha⟩ := bind_eq_ok_iff.1 ha
      cases ha
      exact Nat.succ_le_succ (itemsDepth_of_mapM (h inner) hvalues)
    | _ => cases ha

/-- By induction on the limit: what a decoder reads through itself is one level further in. -/
theorem inverts_nested {step : Decoder α → Decoder α}
    (h : ∀ inner levels, (∀ n, levels = n + 1 → Decoder.Inverts inner n encode) →
      (step inner).Inverts levels encode) (levels : Nat) :
    (Decoder.nested step).Inverts levels encode := by
  have hunroll : (Decoder.unroll step levels).Inverts levels encode := by
    induction levels with
    | zero => exact h _ 0 fun n hn => nomatch hn
    | succ levels ih =>
      apply h
      intro n hn
      cases hn
      exact ih
  exact ⟨hunroll.readable, hunroll.reads, hunroll.bounded⟩

end Decoder

/-! Texts. -/

theorem decode_of_isText {j : Json} {s : String} (h : j.IsText s) (decoder : Decoder α) :
    decode decoder s = decoder.ofJson j := by
  obtain ⟨rest, hread, hrest⟩ := h
  rw [decode, hread]
  dsimp only
  rw [hrest]
  exact bind_pure _

/-- Both layouts of a value are decoded as the value itself. -/
theorem decode_layouts {j : Json} (h : j.Readable) (decoder : Decoder α) :
    decode decoder j.render = decoder.ofJson j ∧ decode decoder j.pretty = decoder.ofJson j :=
  ⟨decode_of_isText (isText_render h.valid) decoder,
    decode_of_isText (isText_pretty h.valid) decoder⟩

theorem decode_of_mem_layouts {j : Json} (h : j.Readable) (decoder : Decoder α) {s : String}
    (hs : s ∈ j.layouts) : decode decoder s = decoder.ofJson j :=
  decode_of_isText (isText_of_mem_layouts h.valid hs) decoder

theorem decoded_of_decode {decoder : Decoder α} {s : String} {a : α}
    (h : decode decoder s = .ok a) : ∃ d, decoder .streamed levelLimit d = .ok a := by
  rcases hd : Document.ofChars s.toList with ⟨d, rest⟩
  rw [decode, hd] at h
  obtain ⟨a', ha, h⟩ := bind_eq_ok_iff.1 h
  split at h
  · cases h
    exact ⟨d, ha⟩
  · cases h

namespace Decoder

variable {decode : Decoder α} {encode : α → Json}

theorem Inverts.decode_render (h : decode.Inverts levelLimit encode) (a : α) :
    Json.decode decode (encode a).render =
      limited (.fault .tooDeep) levelLimit (encode a).depth a := by
  rw [(decode_layouts (h.readable a) decode).1]
  exact h.reads a .streamed

/-- What was decoded from any text can be written and decoded again. -/
theorem Inverts.decode_again (h : decode.Inverts levelLimit encode) {s : String} {a : α}
    (ha : Json.decode decode s = .ok a) :
    (encode a).depth ≤ levelLimit ∧ Json.decode decode (encode a).render = .ok a := by
  obtain ⟨d, hd⟩ := decoded_of_decode ha
  have hdepth := h.bounded hd
  exact ⟨hdepth, (h.decode_render a).trans (if_pos hdepth)⟩

end Decoder

end MethodIR.Json
