import MethodIR.Proofs.Exactness
import MethodIR.Proofs.Report.Spelling

/-! Numbers of ids, headers, summaries and reports are read exactly. -/
namespace MethodIR

open Json (Fields Anything Written)
open Json.Decoder (exact_u32 exact_text exact_boolean exact_list exact_record)
open Json.RecordField (exact_required exact_optional)

variable {p : Json.Literal → Prop}

theorem ScopeId.exact :
    ScopeId.decoder.Exact p (Written ScopeId.toJson) (Written ScopeId.toJson) :=
  exact_u32.map (fun id _ h => ⟨id.index, h⟩) fun _ _ h => h

theorem StaticScopeId.exact :
    StaticScopeId.decoder.Exact p (Written StaticScopeId.toJson) (Written StaticScopeId.toJson) :=
  exact_u32.map (fun id _ h => ⟨id.index, h⟩) fun _ _ h => h

theorem FileId.exact : FileId.decoder.Exact p (Written FileId.toJson) (Written FileId.toJson) :=
  exact_u32.map (fun id _ h => ⟨id.index, h⟩) fun _ _ h => h

theorem LocalVariable.exact : LocalVariable.decoder.Exact p (LocalVariable.Spelled Anything)
    (LocalVariable.Spelled (Json.Numbers p)) :=
  exact_record "struct LocalVariable" (fun v => v.exact_fields) fun _ => rfl

theorem TemporaryVariable.exact :
    TemporaryVariable.decoder.Exact p (TemporaryVariable.Spelled Anything)
      (TemporaryVariable.Spelled (Json.Numbers p)) :=
  exact_record "struct TemporaryVariable" (fun v => v.exact_fields) fun _ => rfl

theorem Parameter.Kind.exact :
    Parameter.Kind.decoder.Exact p (Written Parameter.Kind.toJson) (Written Parameter.Kind.toJson)
    where
  spells {k j} hj _ {stage levels k'} hk := by
    cases Json.UpToNumbers.text hj
    obtain ⟨k, -, hpair⟩ := List.mem_map.1 (Json.Decoder.mem_of_choose hk)
    obtain ⟨hsymbol, rfl⟩ := Prod.mk.inj hpair
    exact congrArg Json.text hsymbol.symm

theorem Parameter.exact : Parameter.decoder.Exact p (Parameter.Spelled Anything)
    (Parameter.Spelled (Json.Numbers p)) :=
  exact_record "struct ArgumentDescriptor"
    (fun q => .field (exact_required "kind" Parameter.Kind.exact q.kind) (by simp)
      (.field (exact_named "name" q.name) (by simp) .done)) fun _ => rfl

theorem Header.exact : Header.decoder.Exact p (Header.Spelled Anything)
    (Header.Spelled (Json.Numbers p)) := by
  refine exact_record "struct ScopeHeader" (fun h => ?_) fun _ => rfl
  have hstatic := exact_optional "static_scope" (StaticScopeId.exact (p := p)) h.staticScope
  have hfile := exact_required "file" (FileId.exact (p := p)) h.file
  have hparent := exact_optional "lexical_parent" (ScopeId.exact (p := p)) h.parent
  have hid := exact_required "id" (ScopeId.exact (p := p)) h.id
  exact .field hid (by simp) (.field hparent (by simp) (.field (exact_named "name" h.name) (by simp)
    (.field hfile (by simp) (.field (exact_counted "line" h.line) (by simp)
      (.field hstatic (by simp) .done)))))

theorem Summary.exact : Summary.decoder.Exact p (Summary.Spelled Anything)
    (Summary.Spelled (Json.Numbers p)) := by
  refine exact_record "struct MethodSummary" (fun s => ?_) fun _ => rfl
  have hinstructions := exact_required "instructions" (exact_list (exact_text (p := p)))
    s.instructions
  have hparameters := exact_required "argument_descriptors" (exact_list (Parameter.exact (p := p)))
    s.parameters
  have hsignature := exact_required "call_signature" (exact_list (exact_text (p := p))) s.signature
  have hlocals := exact_required "variables" (exact_list (LocalVariable.exact (p := p))) s.locals
  have hparent := exact_optional "lexical_parent" (ScopeId.exact (p := p)) s.parent
  have hinstance := exact_required "instance_method" (exact_boolean (p := p)) s.isInstance
  have hid := exact_required "id" (ScopeId.exact (p := p)) s.id
  have hlists := Fields.Exact.field hlocals (by simp) (.field hsignature (by simp)
    (.field hparameters (by simp) (.field hinstructions (by simp) .done)))
  exact .field hid (by simp) (.field (exact_named "name" s.name) (by simp)
    (.field (exact_named "scope" s.scope) (by simp) (.field hinstance (by simp)
      (.field (exact_named "file" s.file) (by simp) (.field (exact_counted "line" s.line) (by simp)
        (.field hparent (by simp) hlists))))))

theorem Report.exact : Report.decoder.Exact p (Report.Spelled Anything)
    (Report.Spelled (Json.Numbers p)) := by
  refine exact_record "struct DumpReport" (fun r => ?_) fun _ => rfl
  have hmethods := exact_required "methods" (exact_list (Summary.exact (p := p))) r.methods
  exact .field (exact_named "source_hash" r.sourceHash) (by simp) (.field hmethods (by simp) .done)

end MethodIR
