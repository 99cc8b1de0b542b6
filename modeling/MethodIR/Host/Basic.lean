import MethodIR.Host.Path

/-! What a command needs of the machine it runs on. -/
namespace MethodIR

/-- Why a file cannot be read or written. -/
inductive AccessError where
  | notFound
  | noDevice
  | denied
  | notADirectory
  | isADirectory
  | noSpace
  | nameTooLong
  | nulInName
  | notText
  | other (text : String)
deriving DecidableEq, Repr

def AccessError.message : AccessError → String
  | .notFound => "No such file or directory (os error 2)"
  | .noDevice => "No such device or address (os error 6)"
  | .denied => "Permission denied (os error 13)"
  | .notADirectory => "Not a directory (os error 20)"
  | .isADirectory => "Is a directory (os error 21)"
  | .noSpace => "No space left on device (os error 28)"
  | .nameTooLong => "File name too long (os error 36)"
  | .nulInName => "file name contained an unexpected NUL byte"
  | .notText => "stream did not contain valid UTF-8"
  | .other text => text

class Host (m : Type → Type) where
  /-- The octets of a file. -/
  read : Path → m (Except AccessError ByteArray)
  /-- Whether anything stands at a path. -/
  isThere : Path → m Bool
  /-- Makes a text the content of a file. -/
  write : Path → String → m (Except AccessError Unit)
  /-- The directory in which paths that are not rooted start. -/
  directory : m Path
  /-- Shows a text on the standard output. -/
  print : String → m Unit
  /-- Shows a text on the standard error output. -/
  printError : String → m Unit

variable {m : Type → Type} [Monad m] [Host m]

/-- The text of a file. -/
def Host.readText (p : Path) : m (Except AccessError String) := do
  match ← Host.read p with
  | .error e => pure (.error e)
  | .ok bytes =>
    match String.fromUTF8? bytes with
    | none => pure (.error .notText)
    | some s => pure (.ok s)

end MethodIR
