import MethodIR.Proofs.Report.RoundTrip
import MethodIR.Proofs.Spelling

/-!
What may be written for variables, parameters, headers, summaries and reports, and that it is all
read as the value it is written for. All of them are read part by part, so that it does not matter
what members of other names hold.
-/
namespace MethodIR

open Json (Decoder RecordField Fields Written SpelledList SpelledRecord Valid)
open Json.Decoder (inverts_text inverts_u32 inverts_boolean accepts_written accepts_list
  accepts_record)
open Json.RecordField (accepts_required accepts_optional)
open Json.FieldSpelling (required optional)

variable {α : Type}

/-- A required field whose value is written in one way only. -/
theorem accepts_requiredWritten (name : String) {decode : Decoder α} {encode : α → Json}
    (h : ∀ levels, decode.Inverts levels encode) (a : α) :
    (RecordField.required name decode).Accepts Json.Literal.WellFormed
      (required name (Written encode a)) a :=
  accepts_required name (accepts_written h a).valid

theorem accepts_optionalWritten (name : String) {decode : Decoder α} {encode : α → Json}
    (h : ∀ levels, decode.Inverts levels encode) (hne : ∀ a, encode a ≠ .null) (a? : Option α) :
    (RecordField.optional name decode).Accepts Json.Literal.WellFormed
      (optional name (Written encode) a?) a? :=
  accepts_optional name (fun a => (accepts_written h a).valid) (fun a _ hj => hj ▸ hne a) a?

namespace LocalVariable

def Spelled (beside : Json → Prop) (v : LocalVariable) : Json → Prop :=
  SpelledRecord beside (Variable.spellings (.ofLocal v))

theorem accepts (v : LocalVariable) :
    decoder.Accepts Json.Literal.WellFormed (v.Spelled Valid) v := by
  have hslot := accepts_requiredWritten "slot" inverts_u32 v.slot
  have hdepth := accepts_requiredWritten "depth" inverts_u32 v.depth
  have hname := accepts_requiredWritten "name" inverts_text v.name
  have hlast := Fields.Accepts.field hdepth (by simp) (.field hslot (by simp) .done)
  exact (accepts_record "struct LocalVariable" (.field hname (by simp) hlast) fun _ h => h).map _

end LocalVariable

namespace TemporaryVariable

def Spelled (beside : Json → Prop) (v : TemporaryVariable) : Json → Prop :=
  SpelledRecord beside (Variable.spellings (.ofTemporary v))

theorem accepts (v : TemporaryVariable) :
    decoder.Accepts Json.Literal.WellFormed (v.Spelled Valid) v := by
  have hindex := accepts_requiredWritten "index" inverts_u32 v.index
  exact (accepts_record "struct TemporaryVariable" (.field hindex (by simp) .done)
    fun _ h => h).map _

end TemporaryVariable

namespace Parameter

def Spelled (beside : Json → Prop) (p : Parameter) : Json → Prop :=
  SpelledRecord beside
    [required "kind" (Written Kind.toJson p.kind), required "name" (Written .text p.name)]

theorem accepts (p : Parameter) :
    decoder.Accepts Json.Literal.WellFormed (p.Spelled Valid) p := by
  have hname := accepts_requiredWritten "name" inverts_text p.name
  have hkind := accepts_requiredWritten "kind" Kind.inverts p.kind
  have hfields := Fields.Accepts.field hkind (by simp) (.field hname (by simp) .done)
  exact (accepts_record "struct ArgumentDescriptor" hfields fun _ h => h).map _

end Parameter

namespace Header

def Spelled (beside : Json → Prop) (h : Header) : Json → Prop :=
  SpelledRecord beside
    [required "id" (Written ScopeId.toJson h.id),
      optional "lexical_parent" (Written ScopeId.toJson) h.parent,
      required "name" (Written .text h.name), required "file" (Written FileId.toJson h.file),
      required "line" (Written Json.u32 h.line),
      optional "static_scope" (Written StaticScopeId.toJson) h.staticScope]

theorem accepts (h : Header) : decoder.Accepts Json.Literal.WellFormed (h.Spelled Valid) h := by
  have hstatic := accepts_optionalWritten "static_scope" StaticScopeId.inverts
    (fun _ h => nomatch h) h.staticScope
  have hline := accepts_requiredWritten "line" inverts_u32 h.line
  have hfile := accepts_requiredWritten "file" FileId.inverts h.file
  have hname := accepts_requiredWritten "name" inverts_text h.name
  have hparent := accepts_optionalWritten "lexical_parent" ScopeId.inverts
    (fun _ h => nomatch h) h.parent
  have hid := accepts_requiredWritten "id" ScopeId.inverts h.id
  have hplace := Fields.Accepts.field hfile (by simp) (.field hline (by simp)
    (.field hstatic (by simp) .done))
  have hfields := Fields.Accepts.field hid (by simp) (.field hparent (by simp)
    (.field hname (by simp) hplace))
  exact (accepts_record "struct ScopeHeader" hfields fun _ h => h).map _

end Header

namespace Summary

def Spelled (beside : Json → Prop) (s : Summary) : Json → Prop :=
  SpelledRecord beside
    [required "id" (Written ScopeId.toJson s.id), required "name" (Written .text s.name),
      required "scope" (Written .text s.scope),
      required "instance_method" (Written .boolean s.isInstance),
      required "file" (Written .text s.file), required "line" (Written Json.u32 s.line),
      optional "lexical_parent" (Written ScopeId.toJson) s.parent,
      required "variables" (SpelledList (LocalVariable.Spelled beside) s.locals),
      required "call_signature" (SpelledList (Written .text) s.signature),
      required "argument_descriptors" (SpelledList (Parameter.Spelled beside) s.parameters),
      required "instructions" (SpelledList (Written .text) s.instructions)]

theorem accepts_texts (name : String) (texts : List String) :
    (RecordField.required name (Decoder.list Decoder.text)).Accepts Json.Literal.WellFormed
      (required name (SpelledList (Written .text) texts)) texts :=
  accepts_required name (accepts_list (fun s => (accepts_written inverts_text s).valid) texts)

theorem accepts (s : Summary) : decoder.Accepts Json.Literal.WellFormed (s.Spelled Valid) s := by
  have hinstructions := accepts_texts "instructions" s.instructions
  have hparameters := accepts_required "argument_descriptors"
    (accepts_list Parameter.accepts s.parameters)
  have hsignature := accepts_texts "call_signature" s.signature
  have hlocals := accepts_required "variables" (accepts_list LocalVariable.accepts s.locals)
  have hparent := accepts_optionalWritten "lexical_parent" ScopeId.inverts
    (fun _ h => nomatch h) s.parent
  have hline := accepts_requiredWritten "line" inverts_u32 s.line
  have hfile := accepts_requiredWritten "file" inverts_text s.file
  have hinstance := accepts_requiredWritten "instance_method" inverts_boolean s.isInstance
  have hscope := accepts_requiredWritten "scope" inverts_text s.scope
  have hname := accepts_requiredWritten "name" inverts_text s.name
  have hid := accepts_requiredWritten "id" ScopeId.inverts s.id
  have hlists := Fields.Accepts.field hlocals (by simp) (.field hsignature (by simp)
    (.field hparameters (by simp) (.field hinstructions (by simp) .done)))
  have hplace := Fields.Accepts.field hfile (by simp) (.field hline (by simp)
    (.field hparent (by simp) hlists))
  have hfields := Fields.Accepts.field hid (by simp) (.field hname (by simp)
    (.field hscope (by simp) (.field hinstance (by simp) hplace)))
  exact (accepts_record "struct MethodSummary" hfields fun _ h => h).map _

end Summary

namespace Report

def Spelled (beside : Json → Prop) (r : Report) : Json → Prop :=
  SpelledRecord beside
    [required "source_hash" (Written .text r.sourceHash),
      required "methods" (SpelledList (Summary.Spelled beside) r.methods)]

theorem accepts (r : Report) : decoder.Accepts Json.Literal.WellFormed (r.Spelled Valid) r := by
  have hmethods := accepts_required "methods" (accepts_list Summary.accepts r.methods)
  have hhash := accepts_requiredWritten "source_hash" inverts_text r.sourceHash
  have hfields := Fields.Accepts.field hhash (by simp) (.field hmethods (by simp) .done)
  exact (accepts_record "struct DumpReport" hfields fun _ h => h).map _

end Report

end MethodIR
