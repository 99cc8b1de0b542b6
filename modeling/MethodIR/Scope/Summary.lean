import MethodIR.Scope.Basic

/-! The view of a method that reports hold. -/
namespace MethodIR

open Json (Decoder Fields)

structure Summary where
  id : ScopeId
  name : String
  scope : String
  isInstance : Bool
  file : String
  line : UInt32
  parent : Option ScopeId
  locals : List LocalVariable
  signature : List String
  parameters : List Parameter
  instructions : List String
deriving DecidableEq

namespace Summary

def toJson (s : Summary) : Json :=
  .object [("id", s.id.toJson), ("name", .text s.name), ("scope", .text s.scope),
    ("instance_method", .boolean s.isInstance), ("file", .text s.file),
    ("line", .nat s.line.toNat), ("lexical_parent", Json.optional ScopeId.toJson s.parent),
    ("variables", .list (s.locals.map LocalVariable.toJson)),
    ("call_signature", .list (s.signature.map .text)),
    ("argument_descriptors", .list (s.parameters.map Parameter.toJson)),
    ("instructions", .list (s.instructions.map .text))]

def decoder : Decoder Summary :=
  (Decoder.record "struct MethodSummary"
    (.field (.required "id" ScopeId.decoder)
      (.field (.required "name" Decoder.text)
        (.field (.required "scope" Decoder.text)
          (.field (.required "instance_method" Decoder.boolean)
            (.field (.required "file" Decoder.text)
              (.field (.required "line" Decoder.u32)
                (.field (.optional "lexical_parent" ScopeId.decoder)
                  (.field (.required "variables" (Decoder.list LocalVariable.decoder))
                    (.field (.required "call_signature" (Decoder.list Decoder.text))
                      (.field (.required "argument_descriptors" (Decoder.list Parameter.decoder))
                        (.field (.required "instructions" (Decoder.list Decoder.text))
                          .done)))))))))))).map
    fun (id, name, scope, isInstance, file, line, parent, locals, signature, parameters,
        instructions, _) =>
      ⟨id, name, scope, isInstance, file, line, parent, locals, signature, parameters,
        instructions⟩

end Summary

/-- What a method looks like from outside, in a file of that name. -/
def Method.summary (m : Method) (file : String) : Summary where
  id := m.header.id
  name := m.name
  scope := (Scope.method m).kind
  isInstance := m.isInstance
  file := file
  line := m.header.line
  parent := m.header.parent
  locals := m.locals.toList
  signature := m.signature.map Operand.render
  parameters := m.parameters
  instructions := m.instructions.map Instruction.render

end MethodIR
