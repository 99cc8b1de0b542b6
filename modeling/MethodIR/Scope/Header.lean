import MethodIR.StringTable

/-! Identities of scopes, and what every scope records about itself. -/
namespace MethodIR

open Json (Decoder Fields)

structure ScopeId where
  index : UInt32
deriving DecidableEq, Repr

namespace ScopeId

def text (id : ScopeId) : String := "scope#" ++ toString id.index

def toJson (id : ScopeId) : Json := .nat id.index.toNat

def decoder : Decoder ScopeId := Decoder.u32.map ScopeId.mk

end ScopeId

structure StaticScopeId where
  index : UInt32
deriving DecidableEq, Repr

namespace StaticScopeId

def text (id : StaticScopeId) : String := "static_scope#" ++ toString id.index

def toJson (id : StaticScopeId) : Json := .nat id.index.toNat

def decoder : Decoder StaticScopeId := Decoder.u32.map StaticScopeId.mk

end StaticScopeId

structure Header where
  id : ScopeId
  parent : Option ScopeId
  name : String
  file : FileId
  line : UInt32
  staticScope : Option StaticScopeId
deriving DecidableEq, Repr

namespace Header

def toJson (h : Header) : Json :=
  .object [("id", h.id.toJson), ("lexical_parent", Json.optional ScopeId.toJson h.parent),
    ("name", .text h.name), ("file", h.file.toJson), ("line", .nat h.line.toNat),
    ("static_scope", Json.optional StaticScopeId.toJson h.staticScope)]

def decoder : Decoder Header :=
  (Decoder.record "struct ScopeHeader"
    (.field (.required "id" ScopeId.decoder)
      (.field (.optional "lexical_parent" ScopeId.decoder)
        (.field (.required "name" Decoder.text)
          (.field (.required "file" FileId.decoder)
            (.field (.required "line" Decoder.u32)
              (.field (.optional "static_scope" StaticScopeId.decoder) .done))))))).map
    fun (id, parent, name, file, line, staticScope, _) =>
      ⟨id, parent, name, file, line, staticScope⟩

end Header

end MethodIR
