import MethodIR.Arena.Event
import MethodIR.Description.Build
import MethodIR.Digest.Sha256

/-! Reports: the summaries of all methods of a source and the digest of its text. -/
namespace MethodIR

open Json (Decoder)

structure Report where
  sourceHash : String
  methods : List Summary
deriving DecidableEq

/-- Why there is no report on a source. -/
inductive ReportError where
  | json (e : Json.Error)
  | build (e : BuildError)
deriving DecidableEq

def ReportError.message : ReportError → String
  | .json e => "invalid unit description: " ++ e.message
  | .build e => e.message

namespace Report

def toJson (r : Report) : Json :=
  .object [("source_hash", .text r.sourceHash), ("methods", .list (r.methods.map Summary.toJson))]

def decoder : Decoder Report :=
  (Decoder.record "struct DumpReport"
    (.field (.required "source_hash" Decoder.text)
      (.field (.required "methods" (Decoder.list Summary.decoder)) .done))).map
    fun (sourceHash, methods, _) => ⟨sourceHash, methods⟩

/-- Names the digest of a source. -/
def hashOf (source : String) : String :=
  "sha256:" ++ Sha256.hexDigest source.toUTF8.data.toList

/-- The report on a source. -/
def ofSource (source : String) (options : Options) : Except ReportError Report := do
  let d ← (Json.decode Description.decoder source).mapError .json
  let (ids, a) ← (d.build options).mapError fun e => .build e.cause
  let methods ← ids.mapM fun id => (a.summary? id).mapError fun e => .build (.arena e)
  pure ⟨hashOf source, methods⟩

/-- What an observer is told while a report is made. -/
def eventsOf (source : String) (options : Options) : List Event :=
  match Json.decode Description.decoder source with
  | .error _ => []
  | .ok d =>
    match d.build options with
    | .error e => e.built.events
    | .ok (ids, a) => a.events ++ [.unitBuilt d.file ids.length]

end Report

end MethodIR
