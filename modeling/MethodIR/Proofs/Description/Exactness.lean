import MethodIR.Proofs.Description.Spelling
import MethodIR.Proofs.Exactness

/-!
Numbers of descriptions are read exactly, those of steps and of their values included.
-/
namespace MethodIR.Description

open Json (Decoder RecordField Fields Variant Anything Written Readable)
open Json.Decoder (exact_u32 exact_text exact_boolean exact_list exact_record exact_tagged)
open Json.RecordField (exact_required exact_optional exact_withDefault)
open Json.FieldSpelling (required optional)

variable {p : Json.Literal → Prop}

namespace Value

/-- Whichever decoder accepts it, an integer is one of 64 bits. -/
theorem exact (hp : ∀ l, p l → l.WellFormed) :
    decoder.Exact p (Spelled Anything) (Spelled Readable) where
  spells {v j} hj hnumbers {stage levels w} hw := by
    obtain ⟨hread, decode, hmem, hdecode⟩ := Json.Decoder.firstOf_eq_ok (hnumbers.mono hp) hw
    simp only [List.mem_cons, List.not_mem_nil, or_false] at hmem
    rcases hmem with rfl | rfl | rfl
    · obtain ⟨n, hn, rfl⟩ := map_eq_ok_iff.1 hdecode
      exact Json.Decoder.i64_eq_ok hn
    · obtain ⟨s, hs, rfl⟩ := map_eq_ok_iff.1 hdecode
      exact Json.Decoder.text_eq_ok hs
    · obtain ⟨r, hr, rfl⟩ := map_eq_ok_iff.1 hdecode
      cases v with
      | fixnum n =>
        obtain ⟨_, rfl, hj⟩ := hj
        cases hj
        cases hr
      | text s =>
        cases hj.text
        cases hr
      | «variable» name =>
        have hspelled := Json.Decoder.spelled_of_object hr hj hread
          (.field (exact_named "var" name) (by simp) .done)
        exact hspelled

end Value

namespace Step

theorem exact_number (name : String) (n : UInt32) :
    (RecordField.required name Decoder.u32).Exact p (required name (Written number n))
      fun n => required name (Written number n) :=
  exact_required name exact_u32 n

theorem exact_values : Value.decoder.Exact Json.Literal.Readable (Value.Spelled Anything)
    (Value.Spelled Readable) :=
  Value.exact fun _ h => h.1

theorem exact_value (value : Option Value) :
    valueField.Exact Json.Literal.Readable (optional "value" (Value.Spelled Anything) value)
      (optional "value" (Value.Spelled Readable)) :=
  exact_optional "value" exact_values value

theorem exact_receipt (name : String) (index : UInt32) :
    (Fields.field nameField (.field indexField .done)).Exact Json.Literal.Readable
      [required "name" (Written .text name), required "index" (Written number index)]
      fun r => [required "name" (Written .text r.1), required "index" (Written number r.2.1)] :=
  .field (exact_named "name" name) (by simp) (.field (exact_number "index" index) (by simp) .done)

theorem exact_receiptAnd {last : String} (hname : "name" ≠ last) (hindex : "index" ≠ last)
    (name : String) (index n : UInt32) :
    (Fields.field nameField (.field indexField
      (.field (.required last Decoder.u32) .done))).Exact Json.Literal.Readable
      [required "name" (Written .text name), required "index" (Written number index),
        required last (Written number n)]
      fun r => [required "name" (Written .text r.1), required "index" (Written number r.2.1),
        required last (Written number r.2.2.1)] :=
  .field (exact_named "name" name) (by simp [hname]) (.field (exact_number "index" index)
    (by simp [hindex]) (.field (exact_number last n) (by simp) .done))

/-- By cases on the operation that the form has. -/
theorem exact (hp : ∀ l, p l → l.WellFormed) :
    decoder.Exact p (Spelled Anything) (Spelled Readable) where
  spells {s j} hj hnumbers {stage levels s'} hs := by
    have hfresh := op_fresh Anything s
    have hvalid := hnumbers.mono hp
    cases s with
    | receive name index | receiveRest name index =>
      exact exact_tagged tag (spellings Readable) hs hj hvalid rfl (Variant.exact_record _
        (exact_receipt name index) fun _ => ⟨rfl, rfl⟩) hfresh
    | receiveOptional name index n | receivePost name index n =>
      exact exact_tagged tag (spellings Readable) hs hj hvalid rfl (Variant.exact_record _
        (exact_receiptAnd (by decide) (by decide) name index n) fun _ => ⟨rfl, rfl⟩) hfresh
    | receiveKeyword name | receiveSelf name =>
      exact exact_tagged tag (spellings Readable) hs hj hvalid rfl (Variant.exact_record _
        (.field (exact_named "name" name) (by simp) .done) fun _ => ⟨rfl, rfl⟩) hfresh
    | receiveBlock =>
      exact exact_tagged tag (spellings Readable) hs hj hvalid rfl
        (Variant.exact_bare rfl rfl) hfresh
    | copy name value =>
      exact exact_tagged tag (spellings Readable) hs hj hvalid rfl (Variant.exact_record _
        (.field (exact_named "name" name) (by simp) (.field (exact_value value) (by simp) .done))
        fun _ => ⟨rfl, rfl⟩) hfresh
    | call result callee args =>
      have hargs := exact_withDefault "args" (exact_list exact_values) [] args
      have hresult := exact_optional "result" (exact_text (p := Json.Literal.Readable)) result
      exact exact_tagged tag (spellings Readable) hs hj hvalid rfl (Variant.exact_record _
        (.field hresult (by simp) (.field (exact_named "method" callee) (by simp)
          (.field hargs (by simp) .done))) fun _ => ⟨rfl, rfl⟩) hfresh
    | giveBack value =>
      exact exact_tagged tag (spellings Readable) hs hj hvalid rfl (Variant.exact_record _
        (.field (exact_value value) (by simp) .done) fun _ => ⟨rfl, rfl⟩) hfresh
    | line n =>
      exact exact_tagged tag (spellings Readable) hs hj hvalid rfl (Variant.exact_record _
        (.field (exact_number "line" n) (by simp) .done) fun _ => ⟨rfl, rfl⟩) hfresh

end Step

theorem Param.exact :
    Param.decoder.Exact p (Param.Spelled Anything) (Param.Spelled (Json.Numbers p)) :=
  exact_record "struct ParamDesc" (fun q => .field (exact_named "kind" q.kind) (by simp)
    (.field (exact_named "name" q.name) (by simp) .done)) fun _ => rfl

theorem Method.exact (hp : ∀ l, p l → l.WellFormed) :
    Method.decoder.Exact p (Method.Spelled Anything Anything)
      (Method.Spelled (Json.Numbers p) Readable) := by
  refine exact_record "struct MethodDesc" (fun m => ?_) fun _ => rfl
  have hbody := exact_withDefault "body" (exact_list (Step.exact hp)) [] m.body
  have hparams := exact_withDefault "params" (exact_list (Param.exact (p := p))) [] m.params
  have hscope := exact_withDefault "static_scope" (exact_boolean (p := p)) false m.hasStaticScope
  have hinstance := exact_withDefault "instance" (exact_boolean (p := p)) true m.isInstance
  have hline := exact_withDefault "line" (exact_u32 (p := p)) 1 m.line
  exact .field (exact_named "name" m.name) (by simp) (.field hline (by simp)
    (.field hinstance (by simp) (.field hscope (by simp) (.field hparams (by simp)
      (.field hbody (by simp) .done)))))

theorem exact (hp : ∀ l, p l → l.WellFormed) :
    decoder.Exact p (Spelled Anything Anything) (Spelled (Json.Numbers p) Readable) := by
  refine exact_record "struct UnitDesc" (fun d => ?_) fun _ => rfl
  have hmethods := exact_withDefault "methods" (exact_list (Method.exact hp)) [] d.methods
  exact .field (exact_named "file" d.file) (by simp) (.field hmethods (by simp) .done)

end MethodIR.Description
