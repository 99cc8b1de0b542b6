import MethodIR.Operand

/-! The closed set of instructions, and what each of them receives and writes. -/
namespace MethodIR

open Json (Decoder RecordField Fields Variant)

inductive Instruction where
  /-- Binds the required positional argument at `index`. -/
  | receiveRequired (result : Variable) (index : UInt32)
  /-- Binds an optional argument, which is unset when fewer than `least` were passed. -/
  | receiveOptional (result : Variable) (index least : UInt32)
  | receiveKeyword (result : Variable) (name : String)
  /-- Binds a required argument after a rest parameter. -/
  | receivePost (result : Variable) (index before : UInt32)
  /-- Binds all positional arguments from `index` on. -/
  | receiveRest (result : Variable) (index : UInt32)
  | receiveBlock (result : Variable)
  | receiveSelf (result : Variable)
  | copy (result : Variable) (value : Operand)
  | call (result : Variable) (receiver : Operand) (name : String) (args : List Operand)
  | giveBack (value : Operand)
  | line (number : UInt32)
deriving DecidableEq

/-- How an instruction binds an argument of the call. -/
inductive Receipt where
  | single (destination : Variable)
  | rest (destination : Variable)
deriving DecidableEq

def Receipt.destination : Receipt → Variable
  | .single v | .rest v => v

namespace Instruction

/-- The argument that an instruction receives. Block and self belong to the frame and are none. -/
def receipt? : Instruction → Option Receipt
  | .receiveRequired v _ | .receiveOptional v _ _ | .receiveKeyword v _ | .receivePost v _ _ =>
    some (.single v)
  | .receiveRest v _ => some (.rest v)
  | _ => none

/-- The variable that an instruction writes. -/
def result? : Instruction → Option Variable
  | .receiveRequired v _ | .receiveOptional v _ _ | .receiveKeyword v _ | .receivePost v _ _
  | .receiveRest v _ | .receiveBlock v | .receiveSelf v | .copy v _ | .call v _ _ _ => some v
  | .giveBack _ | .line _ => none

/-- What an instruction adds to the call signature: the destination of its receipt, splatted when it
takes the rest. -/
def signatureEntry? (i : Instruction) : Option Operand :=
  i.receipt?.map fun
    | .single v => .variable v
    | .rest v => .splat (.variable v)

def render : Instruction → String
  | .receiveRequired v index => v.text ++ " = recv_pre_reqd_arg(" ++ toString index ++ ")"
  | .receiveOptional v index least =>
    v.text ++ " = recv_opt_arg(" ++ toString index ++ ", min=" ++ toString least ++ ")"
  | .receiveKeyword v name => v.text ++ " = recv_kw_arg(" ++ name ++ ")"
  | .receivePost v index before =>
    v.text ++ " = recv_post_reqd_arg(" ++ toString index ++ ", pre=" ++ toString before ++ ")"
  | .receiveRest v index => v.text ++ " = recv_rest_arg(" ++ toString index ++ ")"
  | .receiveBlock v => v.text ++ " = recv_closure"
  | .receiveSelf v => v.text ++ " = recv_self"
  | .copy v value => v.text ++ " = copy(" ++ value.render ++ ")"
  | .call v receiver name args =>
    v.text ++ " = call(" ++ receiver.render ++ ", " ++ name ++ ", [" ++
      ", ".intercalate (args.map Operand.render) ++ "])"
  | .giveBack value => "return(" ++ value.render ++ ")"
  | .line number => "line_num(" ++ toString number ++ ")"

def toJson : Instruction → Json
  | .receiveRequired v index =>
    .object [("op", .text "receive_pre_reqd_arg"), ("result", v.toJson),
      ("index", .nat index.toNat)]
  | .receiveOptional v index least =>
    .object [("op", .text "receive_opt_arg"), ("result", v.toJson), ("index", .nat index.toNat),
      ("min_args", .nat least.toNat)]
  | .receiveKeyword v name =>
    .object [("op", .text "receive_keyword_arg"), ("result", v.toJson), ("name", .text name)]
  | .receivePost v index before =>
    .object [("op", .text "receive_post_reqd_arg"), ("result", v.toJson),
      ("index", .nat index.toNat), ("pre_count", .nat before.toNat)]
  | .receiveRest v index =>
    .object [("op", .text "receive_rest_arg"), ("result", v.toJson), ("index", .nat index.toNat)]
  | .receiveBlock v => .object [("op", .text "receive_closure"), ("result", v.toJson)]
  | .receiveSelf v => .object [("op", .text "receive_self"), ("result", v.toJson)]
  | .copy v value =>
    .object [("op", .text "copy"), ("result", v.toJson), ("value", value.toJson)]
  | .call v receiver name args =>
    .object [("op", .text "call"), ("result", v.toJson), ("receiver", receiver.toJson),
      ("name", .text name), ("args", .list (args.map Operand.toJson))]
  | .giveBack value => .object [("op", .text "return"), ("value", value.toJson)]
  | .line number => .object [("op", .text "line_number"), ("line", .nat number.toNat)]

def resultField : RecordField Variable := .required "result" Variable.decoder

def indexField : RecordField UInt32 := .required "index" Decoder.u32

def decoder : Decoder Instruction :=
  Decoder.tagged "Instr" "op"
    [("receive_pre_reqd_arg",
        .record "struct variant Instr::ReceivePreReqdArg"
          (.field resultField (.field indexField .done))
          fun (result, index, _) => .receiveRequired result index),
      ("receive_opt_arg",
        .record "struct variant Instr::ReceiveOptArg"
          (.field resultField (.field indexField
            (.field (.required "min_args" Decoder.u32) .done)))
          fun (result, index, least, _) => .receiveOptional result index least),
      ("receive_keyword_arg",
        .record "struct variant Instr::ReceiveKeywordArg"
          (.field resultField (.field (.required "name" Decoder.text) .done))
          fun (result, name, _) => .receiveKeyword result name),
      ("receive_post_reqd_arg",
        .record "struct variant Instr::ReceivePostReqdArg"
          (.field resultField (.field indexField
            (.field (.required "pre_count" Decoder.u32) .done)))
          fun (result, index, before, _) => .receivePost result index before),
      ("receive_rest_arg",
        .record "struct variant Instr::ReceiveRestArg"
          (.field resultField (.field indexField .done))
          fun (result, index, _) => .receiveRest result index),
      ("receive_closure",
        .record "struct variant Instr::ReceiveClosure" (.field resultField .done)
          fun (result, _) => .receiveBlock result),
      ("receive_self",
        .record "struct variant Instr::ReceiveSelf" (.field resultField .done)
          fun (result, _) => .receiveSelf result),
      ("copy",
        .record "struct variant Instr::Copy"
          (.field resultField (.field (.required "value" Operand.decoder) .done))
          fun (result, value, _) => .copy result value),
      ("call",
        .record "struct variant Instr::Call"
          (.field resultField (.field (.required "receiver" Operand.decoder)
            (.field (.required "name" Decoder.text)
              (.field (.required "args" (Decoder.list Operand.decoder)) .done))))
          fun (result, receiver, name, args, _) => .call result receiver name args),
      ("return",
        .record "struct variant Instr::Return"
          (.field (.required "value" Operand.decoder) .done)
          fun (value, _) => .giveBack value),
      ("line_number",
        .record "struct variant Instr::LineNumber"
          (.field (.required "line" Decoder.u32) .done)
          fun (number, _) => .line number)]

end Instruction

end MethodIR
