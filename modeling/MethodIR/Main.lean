import MethodIR.Command.Run

/-! The command on the real machine. -/
namespace MethodIR

/-- An error of the system by its number, which some calls give negated. -/
def AccessError.ofNumber (code : UInt32) (details : String) : AccessError :=
  let number := (if code < 0x80000000 then code else -code).toNat
  match number with
  | 2 => .notFound
  | 6 => .noDevice
  | 13 => .denied
  | 20 => .notADirectory
  | 21 => .isADirectory
  | 28 => .noSpace
  | 36 => .nameTooLong
  | _ => .other (details ++ " (os error " ++ toString number ++ ")")

def AccessError.ofSystem (e : IO.Error) : AccessError :=
  match e with
  | .noFileOrDirectory .. => .notFound
  | .invalidArgument _ code details =>
    if details = "string contains NUL bytes" then .nulInName else .ofNumber code details
  | .permissionDenied _ code details
  | .inappropriateType _ code details
  | .noSuchThing _ code details
  | .resourceExhausted _ code details
  | .resourceBusy code details
  | .hardwareFault code details
  | .otherError code details => .ofNumber code details
  | e => .other e.toString

def attempt {α : Type} (act : IO α) : IO (Except AccessError α) := do
  match ← act.toBaseIO with
  | .ok a => pure (.ok a)
  | .error e => pure (.error (.ofSystem e))

instance : Host IO where
  read p := attempt (IO.FS.readBinFile p.text)
  isThere p := do
    let here ← IO.currentDir
    { here with toString := p.text }.pathExists
  write p text := attempt <| IO.FS.withFile p.text .write fun h => do
    h.putStr text
    h.flush
  directory := do pure (.ofString (← IO.currentDir).toString)
  print text := IO.print text
  printError text := IO.eprint text

end MethodIR

def main (args : List String) : IO UInt32 := do
  let code : UInt8 ← MethodIR.Command.run args
  pure code.toUInt32
