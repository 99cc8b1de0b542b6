import MethodIR.Proofs.Description.Exactness
import MethodIR.Proofs.Report.Exactness

/-!
Numbers are never wrapped, rounded or cut to a range. A numeral of any length that stands for a number
is accepted if it is a plain integer of the range, and then it is read as that integer; this is so
where a value is read part by part, where it is read whole before its parts are looked at, and where
several decoders are tried one after another.
-/
namespace MethodIR

open Json (Decoder Literal Numeral Anything Renumbered Scans Written Valid Readable decode)
open Json.Decoder (accepts_written)

namespace Json

namespace Numeral

theorem eq_u32_iff (t : Numeral) (n : UInt32) :
    Json.number t.literal = .u32 n ↔ t.IsPlain ∧ t.integer = n.toNat := by
  rw [Json.u32, Json.nat, Json.int, Json.number.injEq, t.literal_eq_ofInt_iff]

theorem eq_i64_iff (t : Numeral) (n : Int64) :
    Json.number t.literal = .i64 n ↔ t.IsPlain ∧ t.integer = n.toInt := by
  rw [Json.i64, Json.int, Json.number.injEq, t.literal_eq_ofInt_iff]

theorem exists_u32_iff (t : Numeral) : (∃ n, Json.number t.literal = .u32 n) ↔
    t.IsPlain ∧ 0 ≤ t.integer ∧ t.integer ≤ 4294967295 := by
  constructor
  · rintro ⟨n, hn⟩
    obtain ⟨hplain, hvalue⟩ := (t.eq_u32_iff n).1 hn
    have hlt := n.toNat_lt
    exact ⟨hplain, by omega, by omega⟩
  · rintro ⟨hplain, hleast, hgreatest⟩
    refine ⟨.ofNat t.integer.toNat, (t.eq_u32_iff _).2 ⟨hplain, ?_⟩⟩
    rw [UInt32.toNat_ofNat']
    omega

theorem exists_i64_iff (t : Numeral) : (∃ n, Json.number t.literal = .i64 n) ↔
    t.IsPlain ∧ -9223372036854775808 ≤ t.integer ∧ t.integer ≤ 9223372036854775807 := by
  constructor
  · rintro ⟨n, hn⟩
    obtain ⟨hplain, hvalue⟩ := (t.eq_i64_iff n).1 hn
    have hleast := n.le_toInt
    have hlt := n.toInt_lt
    exact ⟨hplain, by omega, by omega⟩
  · rintro ⟨hplain, hleast, hgreatest⟩
    refine ⟨.ofInt t.integer, (t.eq_i64_iff _).2 ⟨hplain, ?_⟩⟩
    exact (Int64.toInt_ofInt_of_le hleast (by omega)).symm

end Numeral

/-- Whatever literals stand in a document for the numbers of a value, it is read as `a`, at either
stage and from any text, if and only if it is spelled as `a`. -/
def Decoder.ReadsExactly {α : Type} (decoder : Decoder α) (loose spelled : α → Json → Prop) : Prop :=
  ∀ a₀ j₀ j, loose a₀ j₀ → Renumbered j₀ j → j.Valid → j.depth ≤ 127 → ∀ a,
    (∀ stage, decoder stage 127 (.ofJson j) = .ok a ↔ spelled a j) ∧
    ∀ s, j.IsText s → (decode decoder s = .ok a ↔ spelled a j)

theorem Decoder.Exact.readsExactly {α : Type} {decoder : Decoder α}
    {loose spelled : α → Json → Prop} (h : decoder.Exact Literal.WellFormed loose spelled)
    (haccepts : ∀ a, decoder.Accepts Literal.WellFormed (spelled a) a) :
    decoder.ReadsExactly loose spelled := by
  intro a₀ j₀ j hj₀ hren hvalid hdepth a
  have hstage : ∀ stage, decoder stage 127 (.ofJson j) = .ok a ↔ spelled a j := fun stage =>
    ⟨h.spells ⟨j₀, hj₀, hren⟩ hvalid, fun hj => (haccepts a).reads hj stage hdepth⟩
  refine ⟨hstage, fun s hs => ?_⟩
  rw [decode_of_isText hs]
  exact hstage .streamed

end Json

/-- A numeral is read as a literal, which is that of a number of 32 bits without sign, or of 64 bits
with sign, if and only if the numeral is plain and its integer is that number. What is read of
anything has exactly the numbers whose literals stand there. -/
theorem numbers_read_exactly :
    (∀ t : Numeral, Scans t.text (.number t.literal) ∧
      (∀ n, Json.number t.literal = .u32 n ↔ t.IsPlain ∧ t.integer = n.toNat) ∧
      (∀ n, Json.number t.literal = .i64 n ↔ t.IsPlain ∧ t.integer = n.toInt) ∧
      ((∃ n, Json.number t.literal = .u32 n) ↔
        t.IsPlain ∧ 0 ≤ t.integer ∧ t.integer ≤ 4294967295) ∧
      ((∃ n, Json.number t.literal = .i64 n) ↔ t.IsPlain ∧
        -9223372036854775808 ≤ t.integer ∧ t.integer ≤ 9223372036854775807)) ∧
    (∀ l : Literal, l.WellFormed ↔ ∃ t : Numeral, t.literal = l) ∧
    ScopeId.decoder.ReadsExactly (Written ScopeId.toJson) (Written ScopeId.toJson) ∧
    StaticScopeId.decoder.ReadsExactly (Written StaticScopeId.toJson)
      (Written StaticScopeId.toJson) ∧
    FileId.decoder.ReadsExactly (Written FileId.toJson) (Written FileId.toJson) ∧
    LocalVariable.decoder.ReadsExactly (LocalVariable.Spelled Anything)
      (LocalVariable.Spelled Valid) ∧
    TemporaryVariable.decoder.ReadsExactly (TemporaryVariable.Spelled Anything)
      (TemporaryVariable.Spelled Valid) ∧
    Header.decoder.ReadsExactly (Header.Spelled Anything) (Header.Spelled Valid) ∧
    Summary.decoder.ReadsExactly (Summary.Spelled Anything) (Summary.Spelled Valid) ∧
    Report.decoder.ReadsExactly (Report.Spelled Anything) (Report.Spelled Valid) ∧
    Operand.decoder.ReadsExactly (Operand.Spelled Anything Anything)
      (Operand.Spelled Readable Valid) ∧
    Variable.decoder.ReadsExactly (Variable.Spelled Anything) (Variable.Spelled Readable) ∧
    Instruction.decoder.ReadsExactly (Instruction.Spelled Anything)
      (Instruction.Spelled Readable) ∧
    Description.Value.decoder.ReadsExactly (Description.Value.Spelled Anything)
      (Description.Value.Spelled Readable) ∧
    Description.Step.decoder.ReadsExactly (Description.Step.Spelled Anything)
      (Description.Step.Spelled Readable) ∧
    Description.Method.decoder.ReadsExactly (Description.Method.Spelled Anything Anything)
      (Description.Method.Spelled Valid Readable) ∧
    Description.decoder.ReadsExactly (Description.Spelled Anything Anything)
      (Description.Spelled Valid Readable) := by
  have hwritten : ∀ l : Literal, l.WellFormed ↔ ∃ t : Numeral, t.literal = l := by
    intro l
    constructor
    · intro hl
      obtain ⟨t, -, ht⟩ := l.exists_numeral hl
      exact ⟨t, ht⟩
    · rintro ⟨t, rfl⟩
      exact t.wellFormed_literal
  have hall : ∀ l : Literal, l.WellFormed → l.WellFormed := fun _ h => h
  have hoperand : ∀ x : Operand,
      Operand.decoder.Accepts Literal.WellFormed (x.Spelled Readable Valid) x := fun x =>
    x.accepts (fun _ h => h) fun _ h => h.1
  exact ⟨fun t => ⟨Json.scans_numeral t, t.eq_u32_iff, t.eq_i64_iff, t.exists_u32_iff,
      t.exists_i64_iff⟩, hwritten,
    ScopeId.exact.readsExactly fun id => (accepts_written ScopeId.inverts id).valid,
    StaticScopeId.exact.readsExactly fun id => (accepts_written StaticScopeId.inverts id).valid,
    FileId.exact.readsExactly fun id => (accepts_written FileId.inverts id).valid,
    LocalVariable.exact.readsExactly LocalVariable.accepts,
    TemporaryVariable.exact.readsExactly TemporaryVariable.accepts,
    Header.exact.readsExactly Header.accepts,
    Summary.exact.readsExactly Summary.accepts,
    Report.exact.readsExactly Report.accepts,
    (Operand.exact hall).readsExactly hoperand,
    (Variable.exact hall).readsExactly fun v => v.accepts.valid,
    (Instruction.exact hall).readsExactly fun i => i.accepts.valid,
    (Description.Value.exact hall).readsExactly fun v => v.accepts.valid,
    (Description.Step.exact hall).readsExactly fun s => s.accepts.valid,
    (Description.Method.exact hall).readsExactly Description.Method.accepts,
    (Description.exact hall).readsExactly Description.accepts⟩

/-- At the bounds, on the three paths: the content of an operand is read where it stands, the members
of a variable after they were read whole, and a value by trying one form after another. -/
theorem numbers_read_exactly_bounds :
    let fixnum (n : Int) : Json := .object [("kind", .text "fixnum"), ("value", .int n)]
    let near (n : Nat) : Json := .object [("kind", .text "local"), ("name", .text "a"),
      ("depth", .nat n), ("slot", .nat 0)]
    let beyond : Numeral := ⟨false, .ofNat 9223372036854775808, none, none,
      Json.Digits.noLeadingZero_ofNat 9223372036854775808⟩
    let minusZero : Numeral := ⟨true, .ofNat 0, none, none, .inl rfl⟩
    let one : Numeral := ⟨false, .ofNat 10, some (.ofNat 0), some (.ofInt (-1)),
      Json.Digits.noLeadingZero_ofNat 10⟩
    (Renumbered (fixnum 0) (fixnum (-9223372036854775808)) ∧
      decode Operand.decoder (fixnum (-9223372036854775808)).render =
        .ok (.fixnum (-9223372036854775808))) ∧
    (Renumbered (near 0) (near 4294967295) ∧
      decode Variable.decoder (near 4294967295).render = .ok (.ofLocal ⟨"a", 4294967295, 0⟩)) ∧
    ∀ t ∈ [beyond, minusZero, one], Renumbered (.int 0) (.number t.literal) ∧
      ∀ v, decode Description.Value.decoder (Json.number t.literal).render ≠ .ok v := by
  intro fixnum near beyond minusZero one
  obtain ⟨hnumerals, hwritten, -, -, -, -, -, -, -, -, hoperand, hvariable, -, hvalue, -⟩ :=
    numbers_read_exactly
  have hinteger : ∀ n : Int, (Json.int n).Valid := fun n c hc => nomatch hc
  have hfixnum : Renumbered (fixnum 0) (fixnum (-9223372036854775808)) :=
    .object rfl (.cons (.text _) (.cons (.number _ _) .nil))
  have hnear : Renumbered (near 0) (near 4294967295) :=
    .object rfl (.cons (.text _) (.cons (.text _) (.cons (.number _ _) (.cons (.number _ _) .nil))))
  refine ⟨⟨hfixnum, ?_⟩, ⟨hnear, ?_⟩, fun t ht => ⟨.number _ _, fun v hv => ?_⟩⟩
  · have hvalid : (fixnum (-9223372036854775808)).Valid := ⟨trivial, hinteger _, trivial⟩
    obtain ⟨-, hread⟩ := hoperand _ _ _ ((Operand.fixnum 0).spelled_toJson Anything Anything)
      hfixnum hvalid (by decide) (.fixnum (-9223372036854775808))
    exact (hread _ (Json.isText_render hvalid)).2 (Operand.spelled_toJson Readable Valid _)
  · have hvalid : (near 4294967295).Valid := ⟨trivial, trivial, hinteger _, hinteger _, trivial⟩
    obtain ⟨-, hread⟩ := hvariable _ _ _ (Variable.spelled_toJson Anything (.ofLocal ⟨"a", 0, 0⟩))
      hnear hvalid (by decide) (.ofLocal ⟨"a", 4294967295, 0⟩)
    exact (hread _ (Json.isText_render hvalid)).2 (Variable.spelled_toJson Readable _)
  · have hvalid : (Json.number t.literal).Valid := (hwritten _).2 ⟨t, rfl⟩
    obtain ⟨-, -, -, -, hrange⟩ := hnumerals t
    obtain ⟨-, hread⟩ := hvalue (.fixnum 0) _ _
      (Description.Value.spelled_toJson Anything (.fixnum 0)) (.number _ t.literal) hvalid
      (by simp [Json.depth]) v
    have hspelled := (hread _ (Json.isText_render hvalid)).1 hv
    have hwithin : ∃ n : Int64, Json.number t.literal = .i64 n := by
      cases v with
      | fixnum n => exact ⟨n, hspelled⟩
      | text s => cases hspelled
      | «variable» name =>
        obtain ⟨ms, hms, -⟩ := hspelled
        cases hms
    obtain ⟨⟨hfraction, -, hzero⟩, -, hgreatest⟩ := hrange.1 hwithin
    simp only [List.mem_cons, List.not_mem_nil, or_false] at ht
    rcases ht with rfl | rfl | rfl
    · have hbeyond : beyond.integer = 9223372036854775808 := by
        change ((Json.Digits.ofNat 9223372036854775808).value : Int) = _
        rw [Json.Digits.value_ofNat]
        rfl
      omega
    · exact hzero ⟨rfl, rfl⟩
    · cases hfraction

end MethodIR
