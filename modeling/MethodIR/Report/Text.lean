import MethodIR.Report.Basic

/-! Reports as text: four lines on each method and one for each of its instructions. -/
namespace MethodIR

namespace Summary

def heading (s : Summary) : String :=
  s.scope ++ " " ++ s.name ++ " (" ++ (if s.isInstance then "instance" else "singleton") ++
    ") at " ++ s.file ++ ":" ++ toString s.line

def variablesLine (s : Summary) : String :=
  "  variables: " ++
    " ".intercalate (s.locals.map fun v => v.name ++ "@" ++ toString v.slot)

def signatureLine (s : Summary) : String :=
  "  call signature: [" ++ ", ".intercalate s.signature ++ "]"

def parametersLine (s : Summary) : String :=
  "  parameters: [" ++ ", ".intercalate (s.parameters.map Parameter.render) ++ "]"

def instructionLine (instruction : String) : String := "    " ++ instruction

def lines (s : Summary) : List String :=
  [s.heading, s.variablesLine, s.signatureLine, s.parametersLine] ++
    s.instructions.map instructionLine

end Summary

/-- All lines of a report, each ended by a line feed. -/
def Report.text (r : Report) : String :=
  String.join ((r.methods.flatMap Summary.lines).map (· ++ "\n"))

end MethodIR
