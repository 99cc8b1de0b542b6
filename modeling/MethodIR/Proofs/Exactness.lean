import MethodIR.Proofs.Json.Exactness
import MethodIR.Proofs.Spelling

/-!
Numbers of variables, operands and instructions are read exactly. Where a literal of any kind stands
in place of a number, the value is accepted only if the literal is that of the number that is read.
-/
namespace MethodIR

open Json (Decoder RecordField Fields Variant FieldSpelling Anything Written Readable)
open Json.Decoder (exact_u32 exact_i64 exact_text exact_list exact_tagged exact_content exact_bare)
open Json.RecordField (exact_required)
open Json.FieldSpelling (required)

variable {p : Json.Literal → Prop} {stage : Json.Stage} {levels : Nat} {j : Json}

theorem exact_counted (name : String) (n : UInt32) :
    (RecordField.required name Decoder.u32).Exact p (required name (Written Json.u32 n))
      fun n => required name (Written Json.u32 n) :=
  exact_required name exact_u32 n

theorem exact_named (name s : String) :
    (RecordField.required name Decoder.text).Exact p (required name (Written .text s))
      fun s => required name (Written .text s) :=
  exact_required name exact_text s

namespace LocalVariable

theorem exact_fields (v : LocalVariable) :
    fields.Exact p (Variable.spellings (.ofLocal v)) fun r =>
      Variable.spellings (.ofLocal ⟨r.1, r.2.1, r.2.2.1⟩) :=
  .field (exact_named "name" v.name) (by simp) (.field (exact_counted "depth" v.depth) (by simp)
    (.field (exact_counted "slot" v.slot) (by simp) .done))

end LocalVariable

namespace TemporaryVariable

theorem exact_fields (v : TemporaryVariable) :
    fields.Exact p (Variable.spellings (.ofTemporary v)) fun r =>
      Variable.spellings (.ofTemporary ⟨r.1⟩) :=
  .field (exact_counted "index" v.index) (by simp) .done

end TemporaryVariable

namespace Variable

/-- By cases on the kind that the form has. -/
theorem exact (hp : ∀ l, p l → l.WellFormed) :
    decoder.Exact p (Spelled Anything) (Spelled Readable) where
  spells {v j} hj hnumbers {stage levels w} hw := by
    have hfresh := v.kind_fresh
    have hvalid := hnumbers.mono hp
    cases v with
    | ofLocal v =>
      exact exact_tagged tag spellings hw hj hvalid rfl
        (Variant.exact_record _ v.exact_fields fun _ => ⟨rfl, rfl⟩) hfresh
    | ofTemporary v =>
      exact exact_tagged tag spellings hw hj hvalid rfl
        (Variant.exact_record _ v.exact_fields fun _ => ⟨rfl, rfl⟩) hfresh

end Variable

namespace Operand

/-- An operand is read by a decoder for its forms, one level further in than it stands. -/
theorem forms_of_decoder {d : Json.Document} {x : Operand} (h : decoder stage levels d = .ok x) :
    ∃ n inner, Decoder.adjacent "Operand" "kind" "value" (forms inner) stage (n + 1) d = .ok x ∧
      ∀ stage d, inner stage n d = decoder stage n d := by
  cases levels with
  | zero =>
    obtain ⟨n, hn, -⟩ := Json.Decoder.gives_of_adjacent h
    cases hn
  | succ n => exact ⟨n, _, h, fun _ _ => rfl⟩

/-- By induction on the operand whose form it is, both for what is read part by part and for what is
read whole. -/
theorem exact (hp : ∀ l, p l → l.WellFormed) :
    decoder.Exact p (Spelled Anything Anything) (Spelled Readable (Json.Numbers p)) where
  spells {x j} hj hnumbers {stage levels y} hy := by
    induction x generalizing p j stage levels y with
    | «variable» v =>
      obtain ⟨n, inner, hy, -⟩ := forms_of_decoder hy
      obtain ⟨w, rfl, hspelled⟩ := exact_content (by decide) rfl hp hj.adjacent hnumbers
        (fun c w hc hnumbers hw => (Variable.exact hp).spells hc hnumbers hw)
        (fun c w hc hread hw => (Variable.exact fun _ h => h.1).spells hc hread hw) hy
      exact hspelled
    | splat x ih =>
      obtain ⟨n, inner, hy, hinner⟩ := forms_of_decoder hy
      obtain ⟨z, rfl, hspelled⟩ := exact_content (by decide) rfl hp hj.adjacent hnumbers
        (fun c z hc hnumbers hz => ih hp hc hnumbers ((hinner stage _).symm.trans hz))
        (fun c z hc hread hz => ih (fun _ h => h.1) hc hread ((hinner .whole _).symm.trans hz)) hy
      exact hspelled
    | nil | self =>
      obtain ⟨n, inner, hy, -⟩ := forms_of_decoder hy
      obtain ⟨rfl, hspelled⟩ := exact_bare (by decide) rfl hj.bare hnumbers hy
      exact hspelled
    | fixnum n =>
      obtain ⟨n, inner, hy, -⟩ := forms_of_decoder hy
      obtain ⟨m, rfl, hspelled⟩ := exact_content (by decide) rfl hp hj.adjacent hnumbers
        (fun c m hc hnumbers hm => exact_i64.spells hc hnumbers hm)
        (fun c m hc hread hm => exact_i64.spells hc hread hm) hy
      exact hspelled
    | text s =>
      obtain ⟨n, inner, hy, -⟩ := forms_of_decoder hy
      obtain ⟨t, rfl, hspelled⟩ := exact_content (by decide) rfl hp hj.adjacent hnumbers
        (fun c t hc hnumbers ht => exact_text.spells hc hnumbers ht)
        (fun c t hc hread ht => exact_text.spells hc hread ht) hy
      exact hspelled

end Operand

namespace Instruction

theorem exact_result (v : Variable) :
    resultField.Exact Json.Literal.Readable (required "result" (v.Spelled Anything))
      fun v => required "result" (v.Spelled Readable) :=
  exact_required "result" (Variable.exact fun _ h => h.1) v

theorem exact_operand : Operand.decoder.Exact Json.Literal.Readable
    (Operand.Spelled Anything Anything) (Operand.Spelled Readable Readable) :=
  Operand.exact fun _ h => h.1

theorem exact_value (x : Operand) :
    (RecordField.required "value" Operand.decoder).Exact Json.Literal.Readable
      (required "value" (x.Spelled Anything Anything))
      fun x => required "value" (x.Spelled Readable Readable) :=
  exact_required "value" exact_operand x

theorem exact_only {α : Type} {field : RecordField α} {f : FieldSpelling}
    {spelled : α → FieldSpelling} (h : field.Exact Json.Literal.Readable f spelled) :
    (Fields.field field .done).Exact Json.Literal.Readable [f] fun r => [spelled r.1] :=
  .field h (by simp) .done

theorem exact_indexAnd {last : String} (hresult : "result" ≠ last) (hindex : "index" ≠ last)
    (v : Variable) (index n : UInt32) :
    (Fields.field resultField (.field indexField
      (.field (.required last Decoder.u32) .done))).Exact Json.Literal.Readable
      [required "result" (v.Spelled Anything), required "index" (Written Json.u32 index),
        required last (Written Json.u32 n)]
      fun r => [required "result" (r.1.Spelled Readable),
        required "index" (Written Json.u32 r.2.1), required last (Written Json.u32 r.2.2.1)] :=
  .field (exact_result v) (by simp [hresult]) (.field (exact_counted "index" index)
    (by simp [hindex]) (exact_only (exact_counted last n)))

/-- By cases on the operation that the form has. -/
theorem exact (hp : ∀ l, p l → l.WellFormed) :
    decoder.Exact p (Spelled Anything) (Spelled Readable) where
  spells {i j} hj hnumbers {stage levels i'} hi := by
    have hfresh : ∀ f ∈ i.spellings Anything, "op" ≠ f.name := i.op_fresh
    have hvalid := hnumbers.mono hp
    cases i with
    | receiveRequired v index | receiveRest v index =>
      have hindex := exact_only (exact_counted "index" index)
      exact exact_tagged tag (spellings Readable) hi hj hvalid rfl (Variant.exact_record _
        (.field (exact_result v) (by simp) hindex) fun _ => ⟨rfl, rfl⟩) hfresh
    | receiveOptional v index n | receivePost v index n =>
      exact exact_tagged tag (spellings Readable) hi hj hvalid rfl (Variant.exact_record _
        (exact_indexAnd (by decide) (by decide) v index n) fun _ => ⟨rfl, rfl⟩) hfresh
    | receiveKeyword v name =>
      have hname := exact_only (exact_named "name" name)
      exact exact_tagged tag (spellings Readable) hi hj hvalid rfl (Variant.exact_record _
        (.field (exact_result v) (by simp) hname) fun _ => ⟨rfl, rfl⟩) hfresh
    | receiveBlock v | receiveSelf v =>
      exact exact_tagged tag (spellings Readable) hi hj hvalid rfl (Variant.exact_record _
        (exact_only (exact_result v)) fun _ => ⟨rfl, rfl⟩) hfresh
    | copy v x =>
      have hvalue := exact_only (exact_value x)
      exact exact_tagged tag (spellings Readable) hi hj hvalid rfl (Variant.exact_record _
        (.field (exact_result v) (by simp) hvalue) fun _ => ⟨rfl, rfl⟩) hfresh
    | call v x name args =>
      have hargs := exact_only (exact_required "args" (exact_list exact_operand) args)
      have hname := Fields.Exact.field (exact_named "name" name) (by simp) hargs
      have hreceiver := Fields.Exact.field (exact_required "receiver" exact_operand x) (by simp)
        hname
      exact exact_tagged tag (spellings Readable) hi hj hvalid rfl (Variant.exact_record _
        (.field (exact_result v) (by simp) hreceiver) fun _ => ⟨rfl, rfl⟩) hfresh
    | giveBack x =>
      exact exact_tagged tag (spellings Readable) hi hj hvalid rfl (Variant.exact_record _
        (exact_only (exact_value x)) fun _ => ⟨rfl, rfl⟩) hfresh
    | line n =>
      exact exact_tagged tag (spellings Readable) hi hj hvalid rfl (Variant.exact_record _
        (exact_only (exact_counted "line" n)) fun _ => ⟨rfl, rfl⟩) hfresh

end Instruction

end MethodIR
