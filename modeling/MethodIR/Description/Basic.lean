import MethodIR.Json.Decoder

/-!
The description of a compilation unit: one file and the methods in it, each with its parameters and
the steps of its body.
-/
namespace MethodIR

open Json (Decoder RecordField Fields Variant)

namespace Description

/-- A value that a step uses. -/
inductive Value where
  | fixnum (n : Int64)
  | text (s : String)
  | variable (name : String)
deriving DecidableEq

inductive Step where
  | receive (name : String) (index : UInt32)
  | receiveOptional (name : String) (index least : UInt32)
  | receiveKeyword (name : String)
  | receivePost (name : String) (index before : UInt32)
  | receiveRest (name : String) (index : UInt32)
  | receiveBlock
  | receiveSelf (name : String)
  | copy (name : String) (value : Option Value)
  | call (result : Option String) (callee : String) (args : List Value)
  | giveBack (value : Option Value)
  | line (number : UInt32)
deriving DecidableEq

/-- A declared parameter; its kind is any text. -/
structure Param where
  kind : String
  name : String
deriving DecidableEq

structure Method where
  name : String
  line : UInt32
  isInstance : Bool
  hasStaticScope : Bool
  params : List Param
  body : List Step
deriving DecidableEq

def Value.decoder : Decoder Value :=
  Decoder.firstOf "ValueDesc"
    [Decoder.i64.map .fixnum, Decoder.text.map .text,
      (Decoder.object "struct variant ValueDesc::Var"
        (.field (.required "var" Decoder.text) .done)).map fun (name, _) => .variable name]

namespace Step

def nameField : RecordField String := .required "name" Decoder.text

def indexField : RecordField UInt32 := .required "index" Decoder.u32

def valueField : RecordField (Option Value) := .optional "value" Value.decoder

def decoder : Decoder Step :=
  Decoder.tagged "BodyOp" "op"
    [("recv_arg",
        .record "struct variant BodyOp::RecvArg" (.field nameField (.field indexField .done))
          fun (name, index, _) => .receive name index),
      ("recv_opt_arg",
        .record "struct variant BodyOp::RecvOptArg"
          (.field nameField (.field indexField
            (.field (.required "min_args" Decoder.u32) .done)))
          fun (name, index, least, _) => .receiveOptional name index least),
      ("recv_kw_arg",
        .record "struct variant BodyOp::RecvKwArg" (.field nameField .done)
          fun (name, _) => .receiveKeyword name),
      ("recv_post_arg",
        .record "struct variant BodyOp::RecvPostArg"
          (.field nameField (.field indexField
            (.field (.required "pre_count" Decoder.u32) .done)))
          fun (name, index, before, _) => .receivePost name index before),
      ("recv_rest_arg",
        .record "struct variant BodyOp::RecvRestArg" (.field nameField (.field indexField .done))
          fun (name, index, _) => .receiveRest name index),
      ("recv_block", .bare .receiveBlock),
      ("recv_self",
        .record "struct variant BodyOp::RecvSelf" (.field nameField .done)
          fun (name, _) => .receiveSelf name),
      ("copy",
        .record "struct variant BodyOp::Copy" (.field nameField (.field valueField .done))
          fun (name, value, _) => .copy name value),
      ("call",
        .record "struct variant BodyOp::Call"
          (.field (.optional "result" Decoder.text)
            (.field (.required "method" Decoder.text)
              (.field (.withDefault "args" (Decoder.list Value.decoder) []) .done)))
          fun (result, callee, args, _) => .call result callee args),
      ("return",
        .record "struct variant BodyOp::Return" (.field valueField .done)
          fun (value, _) => .giveBack value),
      ("line",
        .record "struct variant BodyOp::Line"
          (.field (.required "line" Decoder.u32) .done)
          fun (number, _) => .line number)]

end Step

def Param.decoder : Decoder Param :=
  (Decoder.record "struct ParamDesc"
    (.field (.required "kind" Decoder.text) (.field (.required "name" Decoder.text) .done))).map
      fun (kind, name, _) => ⟨kind, name⟩

def Method.decoder : Decoder Method :=
  (Decoder.record "struct MethodDesc"
    (.field (.required "name" Decoder.text)
      (.field (.withDefault "line" Decoder.u32 1)
        (.field (.withDefault "instance" Decoder.boolean true)
          (.field (.withDefault "static_scope" Decoder.boolean false)
            (.field (.withDefault "params" (Decoder.list Param.decoder) [])
              (.field (.withDefault "body" (Decoder.list Step.decoder) []) .done))))))).map
    fun (name, line, isInstance, hasStaticScope, params, body, _) =>
      ⟨name, line, isInstance, hasStaticScope, params, body⟩

end Description

structure Description where
  file : String
  methods : List Description.Method
deriving DecidableEq

def Description.decoder : Decoder Description :=
  (Decoder.record "struct UnitDesc"
    (.field (.required "file" Decoder.text)
      (.field (.withDefault "methods" (Decoder.list Method.decoder) []) .done))).map
    fun (file, methods, _) => ⟨file, methods⟩

end MethodIR
