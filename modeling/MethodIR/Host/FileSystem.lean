import MethodIR.Host.Basic

/-!
A tree of files and directories. A path is walked piece by piece; each piece but the last must lead
to a directory. Names and paths are bounded in length: a path as a whole before it is walked, a name
when the walk comes to it.
-/
namespace MethodIR

/-- Names from the root down. -/
abbrev Location := List String

inductive Entry where
  | file (bytes : ByteArray)
  | directory

structure FileSystem where
  entry? : Location → Option Entry

namespace FileSystem

/-- Nothing but the root. -/
def empty : FileSystem := ⟨fun l => if l = [] then some .directory else none⟩

def put (fs : FileSystem) (l : Location) (e : Entry) : FileSystem :=
  ⟨fun l' => if l' = l then some e else fs.entry? l'⟩

/-- A location with all directories above it. -/
def putWithParents (fs : FileSystem) (l : Location) (e : Entry) : FileSystem :=
  ((List.range l.length).foldl (fun fs n => fs.put (l.take n) .directory) fs).put l e

/-- The most octets a name has. -/
def longestName : Nat := 255

/-- The most octets a path has, its slashes included. -/
def longestPath : Nat := 4095

/-- What a path must meet before it is walked: no NUL in it, a bounded length, and some text. -/
def checkPath (p : Path) : Except AccessError Unit :=
  if '\x00' ∈ p.text.toList then .error .nulInName
  else if longestPath < p.text.utf8ByteSize then .error .nameTooLong
  else if p.text = "" then .error .notFound
  else .ok ()

def checkName (name : String) : Except AccessError Unit :=
  if longestName < name.utf8ByteSize then .error .nameTooLong else .ok ()

/-- Where one piece of a path leads. -/
def step (l : Location) (piece : String) : Location :=
  if piece = "" ∨ piece = "." then l
  else if piece = ".." then l.dropLast
  else l ++ [piece]

/-- Walks pieces from a location; the end need not be there. -/
def walk (fs : FileSystem) (l : Location) : List String → Except AccessError Location
  | [] => .ok l
  | piece :: pieces =>
    match fs.entry? l with
    | none => .error .notFound
    | some (.file _) => .error .notADirectory
    | some .directory => do
      checkName piece
      fs.walk (step l piece) pieces

def start (directory : Location) (p : Path) : Location := if p.rooted then [] else directory

/-- Where a path leads and what stands there. -/
def locate (fs : FileSystem) (directory : Location) (p : Path) :
    Except AccessError (Location × Entry) := do
  checkPath p
  let l ← fs.walk (start directory p) p.pieces
  match fs.entry? l with
  | none => .error .notFound
  | some e => .ok (l, e)

def isThere (fs : FileSystem) (directory : Location) (p : Path) : Bool :=
  (fs.locate directory p).isOk

/-- The location that writing to a path makes a file of. -/
def target (fs : FileSystem) (directory : Location) (p : Path) : Except AccessError Location := do
  checkPath p
  let pieces := (p.pieces.reverse.dropWhile (· == "")).reverse
  match pieces.getLast? with
  | none => .error .isADirectory
  | some last =>
    let above ← fs.walk (start directory p) pieces.dropLast
    match fs.entry? above with
    | none => .error .notFound
    | some (.file _) => .error .notADirectory
    | some .directory =>
      if pieces.length < p.pieces.length || last = "." || last = ".." then .error .isADirectory
      else
        checkName last
        match fs.entry? (above ++ [last]) with
        | some .directory => .error .isADirectory
        | _ => .ok (above ++ [last])

end FileSystem

end MethodIR
