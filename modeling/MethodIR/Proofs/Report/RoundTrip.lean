import MethodIR.Command.Run
import MethodIR.Proofs.Encoding

/-! Reports and all that they hold are read back from either layout of their JSON form. -/
namespace MethodIR

open Json (Decoder decode depth membersDepth depth_list_map_le)
open Json.Fields (inverts_done inverts_required inverts_optional)
open Json.Decoder (inverts_text inverts_u32 inverts_boolean inverts_list inverts_record
  inverts_name)

/-- What `encode` writes is decoded as what was written, in either layout. -/
def Json.Decoder.ReadsBack {α : Type} (decoder : Decoder α) (encode : α → Json) : Prop :=
  ∀ a, ∀ s ∈ (encode a).layouts, decode decoder s = .ok a

theorem Json.Decoder.Inverts.readsBack {α : Type} {decoder : Decoder α} {encode : α → Json}
    (h : decoder.Inverts levelLimit encode) (hdepth : ∀ a, (encode a).depth ≤ levelLimit) :
    decoder.ReadsBack encode := by
  intro a s hs
  have hread := (h.reads a .streamed).trans (if_pos (hdepth a))
  exact (decode_of_mem_layouts (h.readable a) decoder hs).trans hread

theorem LocalVariable.inverts_decoder (levels : Nat) :
    LocalVariable.decoder.Inverts levels LocalVariable.toJson :=
  (inverts_record "struct LocalVariable" LocalVariable.inverts levels).map
    (fun v => (v.name, v.depth, v.slot, ())) (fun _ => rfl) fun _ => rfl

theorem ScopeId.inverts (levels : Nat) : ScopeId.decoder.Inverts levels ScopeId.toJson :=
  (inverts_u32 levels).map ScopeId.index (fun _ => rfl) fun _ => rfl

theorem StaticScopeId.inverts (levels : Nat) :
    StaticScopeId.decoder.Inverts levels StaticScopeId.toJson :=
  (inverts_u32 levels).map StaticScopeId.index (fun _ => rfl) fun _ => rfl

theorem FileId.inverts (levels : Nat) : FileId.decoder.Inverts levels FileId.toJson :=
  (inverts_u32 levels).map FileId.index (fun _ => rfl) fun _ => rfl

/-! Parameters. -/

namespace Parameter

theorem Kind.inverts (levels : Nat) : Kind.decoder.Inverts levels Kind.toJson := by
  have hlookup : ∀ k, (all.map fun k => (k.symbol, k)).lookup k.symbol = some k := by
    rintro (_ | _ | _ | _ | _ | _) <;> rfl
  exact inverts_name hlookup levels

theorem inverts (levels : Nat) : decoder.Inverts levels toJson := by
  have hname := fun n => inverts_required "name" (inverts_text n) (inverts_done n) (by simp)
  have hkind := fun n => inverts_required "kind" (Kind.inverts n) (hname n) (by simp)
  exact (inverts_record "struct ArgumentDescriptor" hkind levels).map
    (fun p => (p.kind, p.name, ())) (fun _ => rfl) fun _ => rfl

theorem depth_toJson (p : Parameter) : p.toJson.depth = 1 := rfl

end Parameter

/-! Headers. -/

namespace Header

theorem inverts (levels : Nat) : decoder.Inverts levels toJson := by
  have hstatic := fun n => inverts_optional "static_scope" (StaticScopeId.inverts n)
    (fun _ h => nomatch h) (inverts_done n) (by simp)
  have hline := fun n => inverts_required "line" (inverts_u32 n) (hstatic n) (by simp)
  have hfile := fun n => inverts_required "file" (FileId.inverts n) (hline n) (by simp)
  have hname := fun n => inverts_required "name" (inverts_text n) (hfile n) (by simp)
  have hparent := fun n => inverts_optional "lexical_parent" (ScopeId.inverts n)
    (fun _ h => nomatch h) (hname n) (by simp)
  have hid := fun n => inverts_required "id" (ScopeId.inverts n) (hparent n) (by simp)
  exact (inverts_record "struct ScopeHeader" hid levels).map
    (fun h => (h.id, h.parent, h.name, h.file, h.line, h.staticScope, ())) (fun _ => rfl)
    fun _ => rfl

theorem depth_toJson (h : Header) : h.toJson.depth = 1 := by
  obtain ⟨id, parent, name, file, line, staticScope⟩ := h
  cases parent <;> cases staticScope <;> rfl

end Header

/-! Summaries and reports. -/

namespace Summary

theorem inverts (levels : Nat) : decoder.Inverts levels toJson := by
  have hinstructions := fun n => inverts_required "instructions" (inverts_list inverts_text n)
    (inverts_done n) (by simp)
  have hparameters := fun n => inverts_required "argument_descriptors"
    (inverts_list Parameter.inverts n) (hinstructions n) (by simp)
  have hsignature := fun n => inverts_required "call_signature" (inverts_list inverts_text n)
    (hparameters n) (by simp)
  have hlocals := fun n => inverts_required "variables"
    (inverts_list LocalVariable.inverts_decoder n) (hsignature n) (by simp)
  have hparent := fun n => inverts_optional "lexical_parent" (ScopeId.inverts n)
    (fun _ h => nomatch h) (hlocals n) (by simp)
  have hline := fun n => inverts_required "line" (inverts_u32 n) (hparent n) (by simp)
  have hfile := fun n => inverts_required "file" (inverts_text n) (hline n) (by simp)
  have hinstance := fun n => inverts_required "instance_method" (inverts_boolean n) (hfile n)
    (by simp)
  have hscope := fun n => inverts_required "scope" (inverts_text n) (hinstance n) (by simp)
  have hname := fun n => inverts_required "name" (inverts_text n) (hscope n) (by simp)
  have hid := fun n => inverts_required "id" (ScopeId.inverts n) (hname n) (by simp)
  exact (inverts_record "struct MethodSummary" hid levels).map
    (fun s => (s.id, s.name, s.scope, s.isInstance, s.file, s.line, s.parent, s.locals,
      s.signature, s.parameters, s.instructions, ())) (fun _ => rfl) fun _ => rfl

theorem depth_toJson_le (s : Summary) : s.toJson.depth ≤ 3 := by
  have htexts : ∀ texts : List String, (Json.list (texts.map .text)).depth ≤ 1 :=
    depth_list_map_le fun _ => Nat.le_refl 0
  have hlocals : (Json.list (s.locals.map LocalVariable.toJson)).depth ≤ 2 :=
    depth_list_map_le (fun _ => Nat.le_refl 1) s.locals
  have hparameters : (Json.list (s.parameters.map Parameter.toJson)).depth ≤ 2 :=
    depth_list_map_le (fun p => Nat.le_of_eq p.depth_toJson) s.parameters
  have hparent : (Json.optional ScopeId.toJson s.parent).depth = 0 := by
    cases s.parent <;> rfl
  have hsignature := htexts s.signature
  have hinstructions := htexts s.instructions
  have hnumber : ∀ n : UInt32, (Json.nat n.toNat).depth = 0 := fun _ => rfl
  simp only [toJson, ScopeId.toJson, depth, membersDepth, hnumber, hparent] at *
  omega

end Summary

namespace Report

theorem inverts (levels : Nat) : decoder.Inverts levels toJson := by
  have hmethods := fun n => inverts_required "methods" (inverts_list Summary.inverts n)
    (inverts_done n) (by simp)
  have hhash := fun n => inverts_required "source_hash" (inverts_text n) (hmethods n) (by simp)
  exact (inverts_record "struct DumpReport" hhash levels).map
    (fun r => (r.sourceHash, r.methods, ())) (fun _ => rfl) fun _ => rfl

theorem depth_toJson_le (r : Report) : r.toJson.depth ≤ 5 := by
  have hmethods := depth_list_map_le Summary.depth_toJson_le r.methods
  simp only [toJson, depth, membersDepth] at hmethods ⊢
  omega

/-- Reports, the summaries in them, headers and parameters are read back exactly from both layouts of
their JSON form, whatever their texts and ids are, and an id that is absent is written as null. So
the text that is shown of a report is the text of what its JSON form is read as, and a report that
was made on a source is the same after it was written and read. -/
theorem layouts_read_back :
    Report.decoder.ReadsBack Report.toJson ∧ Summary.decoder.ReadsBack Summary.toJson ∧
    Header.decoder.ReadsBack Header.toJson ∧ Parameter.decoder.ReadsBack Parameter.toJson ∧
    (∀ r : Report, ∀ s ∈ r.toJson.layouts,
      (decode Report.decoder s).map Report.text = .ok r.text) ∧
    (∀ r : Report, (decode Report.decoder (Command.render r .json)).map (Command.render · .text) =
      .ok (Command.render r .text)) ∧
    (∀ source options,
      (ofSource source options >>= fun r => (decode Report.decoder r.toJson.render).mapError .json) =
        ofSource source options ∧
      (ofSource source options >>= fun r => (decode Report.decoder r.toJson.pretty).mapError .json) =
        ofSource source options) ∧
    (∀ s : Summary, s.toJson.member? "lexical_parent" = some .null ↔ s.parent = none) ∧
    ∀ h : Header, (h.toJson.member? "lexical_parent" = some .null ↔ h.parent = none) ∧
      (h.toJson.member? "static_scope" = some .null ↔ h.staticScope = none) := by
  have hreport : Report.decoder.ReadsBack Report.toJson :=
    (Report.inverts _).readsBack fun r => Nat.le_trans r.depth_toJson_le (by decide)
  have htext : ∀ r : Report, ∀ s ∈ r.toJson.layouts,
      (decode Report.decoder s).map Report.text = .ok r.text := by
    intro r s hs
    rw [hreport r s hs]
    rfl
  have hnull : ∀ {α : Type} {encode : α → Json} (a? : Option α), (∀ a, encode a ≠ .null) →
      (some (Json.optional encode a?) = some .null ↔ a? = none) := by
    intro α encode a? hne
    rw [Option.some.injEq, Json.optional_eq_null_iff hne]
  have hscope : ∀ id : ScopeId, id.toJson ≠ .null := fun _ h => nomatch h
  have hstatic : ∀ id : StaticScopeId, id.toJson ≠ .null := fun _ h => nomatch h
  have hrender : ∀ r : Report, r.toJson.render ∈ r.toJson.layouts := fun r => by simp [Json.layouts]
  have hpretty : ∀ r : Report, r.toJson.pretty ∈ r.toJson.layouts := fun r => by simp [Json.layouts]
  refine ⟨hreport, (Summary.inverts _).readsBack fun s => Nat.le_trans s.depth_toJson_le (by decide),
    (Header.inverts _).readsBack fun h => h.depth_toJson ▸ by decide,
    (Parameter.inverts _).readsBack fun p => p.depth_toJson ▸ by decide, htext,
    fun r => htext r _ (hpretty r), fun source options => ⟨?_, ?_⟩, fun s => hnull s.parent hscope,
    fun h => ⟨hnull h.parent hscope, hnull h.staticScope hstatic⟩⟩
  · refine bind_eq_self fun r => ?_
    rw [hreport r _ (hrender r), mapError_ok]
  · refine bind_eq_self fun r => ?_
    rw [hreport r _ (hpretty r), mapError_ok]

/-- Quotes, line breaks and controls in texts, the greatest id, and no parent. -/
theorem layouts_read_back_controls :
    let s : Summary := ⟨⟨4294967295⟩, "a\"\\b", "Method\n", false, "\x00.rb", 0, none,
      [⟨"%block", 4294967295, 0⟩], ["*\u2028"], [⟨.keywordRest, "\x7f"⟩], []⟩
    let r : Report := ⟨"\t", [s, { s with parent := some ⟨0⟩ }]⟩
    r.toJson.pretty ∈ r.toJson.layouts ∧ decode Report.decoder r.toJson.pretty = .ok r ∧
      (decode Report.decoder r.toJson.render).map Report.text = .ok r.text ∧
      s.toJson.member? "lexical_parent" = some .null := by
  intro s r
  have hpretty : r.toJson.pretty ∈ r.toJson.layouts := by simp [Json.layouts]
  have hrender : r.toJson.render ∈ r.toJson.layouts := by simp [Json.layouts]
  obtain ⟨hread, -, -, -, htext, -, -, hparent, -⟩ := layouts_read_back
  exact ⟨hpretty, hread r _ hpretty, htext r _ hrender, (hparent s).2 rfl⟩

end Report

end MethodIR
