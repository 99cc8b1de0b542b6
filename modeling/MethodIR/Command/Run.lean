import MethodIR.Command.Help
import MethodIR.Config.Basic
import MethodIR.Report.Text

/-!
Running the command on a host. A dump either gives the whole report or fails and changes nothing, but
for a write that breaks off: source and configuration are read before anything is built, and everything
is built before anything is written. Progress is shown on the way.
-/
namespace MethodIR.Command

/-- Why a dump fails. -/
inductive Error where
  | unreadable (path : Path) (e : AccessError)
  | config (e : Config.Error)
  | report (e : ReportError)
  | unwritable (path : Path) (e : AccessError)

def Error.message : Error → String
  | .unreadable path e => "cannot read '" ++ path.text ++ "': " ++ e.message
  | .config e => e.describe fun _ => Toml.Error.headline
  | .report e => e.message
  | .unwritable path e => "writing to '" ++ path.text ++ "': " ++ e.message

/-- A line on progress, its label at the right of twelve columns. -/
def statusLine (label text : String) : String :=
  let blanks := String.ofList (List.replicate (12 - label.length) ' ')
  "\x1b[1;32m" ++ blanks ++ label ++ "\x1b[0m " ++ text ++ "\n"

def errorLine (e : Error) : String := "\x1b[31merror:\x1b[0m " ++ e.message ++ "\n"

/-- A report in the format that was asked for. -/
def render (r : Report) : Format → String
  | .text => r.text
  | .json => r.toJson.pretty

variable {m : Type → Type} [Monad m] [Host m]

/-- Options for a dump: those of the configuration, and the flag of the command line. -/
def options (d : Dump) : m (Except Config.Error Options) := do
  let loaded ← Config.load (d.config.map Path.ofString) (← Host.directory)
  pure (loaded.map fun o => if d.irGenOnly then { o with irGenOnly := true } else o)

/-- Shows why a dump fails. -/
def fail (e : Error) : m UInt8 := do
  Host.printError (errorLine e)
  pure 1

/-- Puts a rendering where it belongs. -/
def deliver (d : Dump) (rendering : String) : m UInt8 := do
  match d.output with
  | none =>
    Host.print rendering
    pure 0
  | some output =>
    let path := Path.ofString output
    Host.printError (statusLine "Writing" ("scopes to " ++ path.text))
    match ← Host.write path rendering with
    | .error e => fail (.unwritable path e)
    | .ok () => pure 0

def dump (d : Dump) : m UInt8 := do
  let path := Path.ofString d.file
  match ← Host.readText path with
  | .error e => fail (.unreadable path e)
  | .ok source =>
    match ← options d with
    | .error e => fail (.config e)
    | .ok o =>
      Host.printError (statusLine "Building" path.text)
      match Report.ofSource source o with
      | .error e => fail (.report e)
      | .ok r => deliver d (render r d.format)

/-- Runs the command with its arguments, to the exit code. -/
def run (args : List String) : m UInt8 := do
  match Request.ofArguments args with
  | none =>
    Host.printError Topic.program.text
    pure 2
  | some .version =>
    Host.print version
    pure 0
  | some (.help topic) =>
    Host.print topic.text
    pure 0
  | some (.dump d) => dump d

end MethodIR.Command
