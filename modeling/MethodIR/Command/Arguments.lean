/-! The command line: `dump` with its options in any order around the file. -/
namespace MethodIR.Command

inductive Format where
  | text
  | json
deriving DecidableEq, Repr

structure Dump where
  file : String
  output : Option String
  format : Format
  config : Option String
  irGenOnly : Bool
deriving DecidableEq, Repr

/-- What help can be asked for. -/
inductive Topic where
  | program
  | dump
  | help
deriving DecidableEq, Repr

inductive Request where
  | version
  | help (topic : Topic)
  | dump (d : Dump)
deriving DecidableEq, Repr

/-- What has been read of the arguments of a dump. -/
structure Partial where
  file : Option String
  output : Option String
  format : Option Format
  config : Option String
  irGenOnly : Bool

/-- The options that take a value. -/
inductive Valued where
  | output
  | format
  | config
deriving DecidableEq, Repr

def Valued.ofName? : String → Option Valued
  | "output" => some .output
  | "format" => some .format
  | "config" => some .config
  | _ => none

def formatOf? : String → Option Format
  | "text" => some .text
  | "json" => some .json
  | _ => none

namespace Partial

def empty : Partial := ⟨none, none, none, none, false⟩

/-- Fills a place that is still free with a path; a path is not empty. -/
def fill (place : Option String) (s : String) : Option (Option String) :=
  if place.isSome || s.isEmpty then none else some (some s)

/-- Gives an option its value. No option comes twice. -/
def give (p : Partial) (option : Valued) (s : String) : Option Partial :=
  match option with
  | .output => (fill p.output s).map fun output => { p with output }
  | .config => (fill p.config s).map fun config => { p with config }
  | .format =>
    if p.format.isSome then none
    else (formatOf? s).map fun format => { p with format := some format }

def addFile (p : Partial) (s : String) : Option Partial :=
  (fill p.file s).map fun file => { p with file }

def finish (p : Partial) : Option Request := do
  let file ← p.file
  pure (.dump ⟨file, p.output, p.format.getD .text, p.config, p.irGenOnly⟩)

end Partial

/-- The name and the attached value of a long option, without its dashes. -/
def splitLong (cs : List Char) : String × Option String :=
  let name := cs.takeWhile (· != '=')
  (String.ofList name,
    match cs.drop name.length with
    | [] => none
    | _ :: value => some (String.ofList value))

/-- An argument of a dump by its form. -/
inductive Argument where
  | plain (s : String)
  | endOfOptions
  | help
  | flag
  | valued (option : Valued) (attached : Option String)
  | unknown

def Argument.ofString (s : String) : Argument :=
  match s.toList with
  | ['-', '-'] => .endOfOptions
  | '-' :: '-' :: cs =>
    match splitLong cs with
    | ("help", none) => .help
    | ("ir-gen-only", none) => .flag
    | (name, attached) =>
      match Valued.ofName? name with
      | some option => .valued option attached
      | none => .unknown
  | ['-', 'o'] => .valued .output none
  | '-' :: 'o' :: '=' :: cs => .valued .output (some (String.ofList cs))
  | '-' :: 'o' :: cs => .valued .output (some (String.ofList cs))
  | '-' :: 'h' :: _ => .help
  | '-' :: _ :: _ => .unknown
  | _ => .plain s

/-- Reads arguments that can only be files. -/
def readFiles (p : Partial) : List String → Option Request
  | [] => p.finish
  | s :: args => do readFiles (← p.addFile s) args

/-- Reads the arguments of a dump; `none` is a wrong use. -/
def readDump (p : Partial) : List String → Option Request
  | [] => p.finish
  | s :: args =>
    match Argument.ofString s with
    | .plain s => do readDump (← p.addFile s) args
    | .endOfOptions => readFiles p args
    | .help => some (.help .dump)
    | .flag => if p.irGenOnly then none else readDump { p with irGenOnly := true } args
    | .valued option (some value) => do readDump (← p.give option value) args
    | .valued option none =>
      match args with
      | [] => none
      | value :: args =>
        match Argument.ofString value with
        | .plain value => do readDump (← p.give option value) args
        | _ => none
    | .unknown => none

/-- What the arguments ask for; `none` is a wrong use. -/
def Request.ofArguments : List String → Option Request
  | "dump" :: args => readDump .empty args
  | "--version" :: _ => some .version
  | "--help" :: _ | ["help"] => some (.help .program)
  | ["help", "dump"] => some (.help .dump)
  | ["help", "help"] => some (.help .help)
  | s :: _ =>
    match s.toList with
    | '-' :: 'V' :: _ => some .version
    | '-' :: 'h' :: _ => some (.help .program)
    | _ => none
  | [] => none

end MethodIR.Command
