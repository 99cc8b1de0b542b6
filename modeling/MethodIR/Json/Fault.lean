import MethodIR.Found

/-!
What can be wrong with a JSON document: a text that is no JSON (`Fault`), or JSON of the wrong
shape (`Mismatch`). Each cause has one wording.
-/
namespace MethodIR.Json

/-- Why a text cannot be read on from some place. -/
inductive Fault where
  | valueCut
  | stringCut
  | listCut
  | objectCut
  | valueExpected
  | wordExpected
  | colonExpected
  | listCommaExpected
  | objectCommaExpected
  | keyExpected
  | trailingComma
  | trailingText
  | numberMalformed
  | numberTooLarge
  | escapeUnknown
  | surrogateAlone
  | surrogateCut
  | controlCharacter
  | tooDeep
deriving DecidableEq, Repr

/-- Whether the document ended too early. -/
def Fault.isCut : Fault → Bool
  | .valueCut | .stringCut | .listCut | .objectCut => true
  | _ => false

def Fault.message : Fault → String
  | .valueCut => "EOF while parsing a value"
  | .stringCut => "EOF while parsing a string"
  | .listCut => "EOF while parsing a list"
  | .objectCut => "EOF while parsing an object"
  | .valueExpected => "expected value"
  | .wordExpected => "expected ident"
  | .colonExpected => "expected `:`"
  | .listCommaExpected => "expected `,` or `]`"
  | .objectCommaExpected => "expected `,` or `\x7d`"
  | .keyExpected => "key must be a string"
  | .trailingComma => "trailing comma"
  | .trailingText => "trailing characters"
  | .numberMalformed => "invalid number"
  | .numberTooLarge => "number out of range"
  | .escapeUnknown => "invalid escape"
  | .surrogateAlone => "lone leading surrogate in hex escape"
  | .surrogateCut => "unexpected end of hex escape"
  | .controlCharacter => "control character (\\u0000-\\u001F) found while parsing a string"
  | .tooDeep => "recursion limit exceeded"

/-- Why a value does not have the shape that is wanted. -/
inductive Mismatch where
  | missingField (name : String)
  | duplicateField (name : String)
  | wrongType (found : Found) (wanted : String)
  | outOfRange (n : Int) (wanted : String)
  | unknownVariant (found : String) (known : List String)
  | noSuchIndex (n : Int) (count : Nat)
  | notOneEntry
  | noVariant (name : String)
  | wrongLength (length : Nat) (wanted : String)
deriving DecidableEq, Repr

/-- The alternatives, each between accents. -/
def alternatives : List String → String
  | [] => "there are no variants"
  | [a] => "expected `" ++ a ++ "`"
  | [a, b] => "expected `" ++ a ++ "` or `" ++ b ++ "`"
  | many => "expected one of " ++ ", ".intercalate (many.map fun a => "`" ++ a ++ "`")

def Mismatch.message : Mismatch → String
  | .missingField name => "missing field `" ++ name ++ "`"
  | .duplicateField name => "duplicate field `" ++ name ++ "`"
  | .wrongType found wanted =>
    "invalid type: " ++ found.describe .bounded ++ ", expected " ++ wanted
  | .outOfRange n wanted => "invalid value: integer `" ++ toString n ++ "`, expected " ++ wanted
  | .unknownVariant found known => "unknown variant `" ++ found ++ "`, " ++ alternatives known
  | .noSuchIndex n count =>
    "invalid value: integer `" ++ toString n ++ "`, expected variant index 0 <= i < " ++
      toString count
  | .notOneEntry => "invalid value: map, expected map with a single key"
  | .noVariant name => "data did not match any variant of untagged enum " ++ name
  | .wrongLength length wanted =>
    "invalid length " ++ toString length ++ ", expected " ++ wanted

inductive Error where
  | fault (f : Fault)
  | mismatch (m : Mismatch)
deriving DecidableEq, Repr

def Error.message : Error → String
  | .fault f => f.message
  | .mismatch m => m.message

/-- The text ends too early, is no JSON, or is JSON of another shape. -/
inductive Category where
  | cut
  | malformed
  | misfit
deriving DecidableEq, Repr

def Error.category : Error → Category
  | .fault f => if f.isCut then .cut else .malformed
  | .mismatch _ => .misfit

end MethodIR.Json
