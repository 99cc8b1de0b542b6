import MethodIR.Options
import MethodIR.Toml.Document

/-! Options from the table `ir` of a TOML document. -/
namespace MethodIR

namespace Toml

inductive Error where
  | malformed
  | wrongType (found : Found) (wanted : String)
deriving DecidableEq, Repr

def Error.message : Error → String
  | .malformed => "syntax"
  | .wrongType found wanted =>
    "invalid type: " ++ found.describe .plain ++ ", expected " ++ wanted

/-- How every error begins when it is shown with its place in the text. -/
def Error.headline : String := "TOML parse error"

def Value.boolean? : Value → Except Error Bool
  | .boolean b => .ok b
  | v => .error (.wrongType v.found "a boolean")

end Toml

namespace Options

open Toml (Value Entries)

/-- Takes an entry of the table into account; names that mean nothing are passed over. -/
def withEntry (o : Options) : String × Value → Except Toml.Error Options
  | ("ir_gen_only", v) => do pure { o with irGenOnly := ← v.boolean? }
  | ("trace_signature", v) => do pure { o with traceSignature := ← v.boolean? }
  | _ => .ok o

/-- The options in the order of their declaration; missing ones are off, further items ignored. -/
def ofItems : List Value → Except Toml.Error Options
  | [] => .ok .default
  | [a] => do pure ⟨← a.boolean?, false⟩
  | a :: b :: _ => do
    let a ← a.boolean?
    let b ← b.boolean?
    pure ⟨a, b⟩

def ofValue : Value → Except Toml.Error Options
  | .table _ es => es.foldlM withEntry .default
  | .list items => ofItems items
  | .tables elements => ofItems (elements.map (.table .header))
  | .time => .ok .default
  | v => .error (.wrongType v.found "struct IrOptions")

/-- The options that a TOML document sets. -/
def ofToml (text : String) : Except Toml.Error Options :=
  match Toml.read? text with
  | none => .error .malformed
  | some es =>
    match es.lookup "ir" with
    | none => .ok .default
    | some v => ofValue v

end Options

end MethodIR
