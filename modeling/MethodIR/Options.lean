import MethodIR.Json.Decoder

/-! Options of a build, all off by default. -/
namespace MethodIR

open Json (Decoder)

structure Options where
  /-- Leave static scopes without links to the methods built from them. -/
  irGenOnly : Bool
  /-- Report every entry of a call signature. -/
  traceSignature : Bool
deriving DecidableEq, Repr

namespace Options

def default : Options := ⟨false, false⟩

def toJson (o : Options) : Json :=
  .object [("ir_gen_only", .boolean o.irGenOnly), ("trace_signature", .boolean o.traceSignature)]

def decoder : Decoder Options :=
  (Decoder.record "struct IrOptions"
    (.field (.withDefault "ir_gen_only" Decoder.boolean false)
      (.field (.withDefault "trace_signature" Decoder.boolean false) .done))).map
        fun (irGenOnly, traceSignature, _) => ⟨irGenOnly, traceSignature⟩

end Options

end MethodIR
