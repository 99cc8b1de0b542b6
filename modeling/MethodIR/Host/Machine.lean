import MethodIR.Host.FileSystem

/-!
A machine as data: its files, the directory in which it works, places that are not read or written
as files are, and what it has shown so far. A text that is written to a file empties it first, so if
there is no room for the whole text, only the start of it is left.
-/
namespace MethodIR

/-- What reading a place gives. -/
inductive Content where
  /-- The same octets each time. -/
  | ok (bytes : ByteArray)
  | error (e : AccessError)
  /-- What the files have there. -/
  | file

/-- Where a text goes that is written to a place. -/
inductive Sink where
  /-- Takes every text and keeps none. -/
  | nowhere
  /-- Has no room for any character. -/
  | full
  | output
  | errorOutput
  /-- Cannot be opened. -/
  | closed (e : AccessError)
  /-- A file that has room for so many octets; the error is that of a longer text. -/
  | file (room : Nat) (e : AccessError)
deriving DecidableEq

/-- How a place is read and written. -/
structure Device where
  content : Content
  sink : Sink

structure Machine where
  files : FileSystem
  directory : Location
  /-- The places that are not just files with room for every text. -/
  device? : Location → Option Device
  output : String
  errorOutput : String

namespace Machine

/-- A machine that has no devices and has shown nothing. -/
def ofFiles (files : FileSystem) (directory : Location) : Machine :=
  ⟨files, directory, fun _ => none, "", ""⟩

def print (m : Machine) (text : String) : Machine := { m with output := m.output ++ text }

def printError (m : Machine) (text : String) : Machine :=
  { m with errorOutput := m.errorOutput ++ text }

/-- Makes some octets the content of a file. -/
def put (m : Machine) (l : Location) (bytes : ByteArray) : Machine :=
  { m with files := m.files.put l (.file bytes) }

def content (m : Machine) (l : Location) : Content :=
  match m.device? l with
  | some d => d.content
  | none => .file

def read (m : Machine) (p : Path) : Except AccessError ByteArray := do
  let (l, e) ← m.files.locate m.directory p
  match m.content l, e with
  | .ok bytes, _ => .ok bytes
  | .error e, _ => .error e
  | .file, .file bytes => .ok bytes
  | .file, .directory => .error .isADirectory

/-- What comes of a text that goes to a sink at some location, and the machine after it. -/
def pour (m : Machine) (l : Location) (text : String) : Sink → Except AccessError Unit × Machine
  | .nowhere => (.ok (), m)
  | .full => if text = "" then (.ok (), m) else (.error .noSpace, m)
  | .output => (.ok (), m.print text)
  | .errorOutput => (.ok (), m.printError text)
  | .closed e => (.error e, m)
  | .file room e =>
    if text.utf8ByteSize ≤ room then (.ok (), m.put l text.toUTF8)
    else (.error e, m.put l (text.toUTF8.extract 0 room))

/-- What comes of writing a text to a path, and the machine after it. -/
def write (m : Machine) (p : Path) (text : String) : Except AccessError Unit × Machine :=
  match m.files.target m.directory p with
  | .error e => (.error e, m)
  | .ok l =>
    match m.device? l with
    | some d => m.pour l text d.sink
    | none => (.ok (), m.put l text.toUTF8)

end Machine

/-- What runs on a machine that is data. -/
abbrev OnMachine := StateM Machine

instance : Host OnMachine where
  read p := do
    let m ← get
    pure (m.read p)
  isThere p := do
    let m ← get
    pure (m.files.isThere m.directory p)
  write p text := modifyGet (·.write p text)
  directory := do
    let m ← get
    pure ⟨true, m.directory⟩
  print text := modify (·.print text)
  printError text := modify (·.printError text)

end MethodIR
