import MethodIR.Host.Basic
import MethodIR.Toml.OptionsFile

/-! Finding and loading the file that sets the options of a project. -/
namespace MethodIR.Config

/-- The name of the file in a project's directory. -/
def fileName : String := "garnet.toml"

/-- The places where the file of a project may be, the nearest first. -/
def candidates (start : Path) : List Path := start.ancestors.map (·.child fileName)

inductive Error where
  | unreadable (path : Path) (e : AccessError)
  | invalid (path : Path) (e : Toml.Error)
deriving DecidableEq

/-- Tells an error with a given wording for what is wrong inside the file. -/
def Error.describe (detail : Toml.Error → String) : Error → String
  | .unreadable path e => "cannot read '" ++ path.text ++ "': " ++ e.message
  | .invalid path e => "invalid toml in '" ++ path.text ++ "': " ++ detail e

variable {m : Type → Type} [Monad m] [Host m]

/-- The nearest file above a place. -/
def find? (start : Path) : m (Option Path) := (candidates start).findM? fun p => Host.isThere p

/-- The options of one file. -/
def read (path : Path) : m (Except Error Options) := do
  match ← Host.readText path with
  | .error e => pure (.error (.unreadable path e))
  | .ok s => pure ((Options.ofToml s).mapError (.invalid path))

/-- The options of the explicit file if one is given, else of the nearest one above `start`, else
the default. -/
def load (explicit : Option Path) (start : Path) : m (Except Error Options) := do
  match explicit with
  | some path => read path
  | none =>
    match ← find? start with
    | some path => read path
    | none => pure (.ok .default)

end MethodIR.Config
