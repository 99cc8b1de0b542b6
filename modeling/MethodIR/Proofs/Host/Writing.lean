import MethodIR.Host.Machine
import MethodIR.Proofs.Result

/-!
Writing where a path leads. A file that is put in a place where no directory stands is in the way of
no walk, so the path still leads there, and what is read from it is what was written. A text can be
refused before it changes anything, and it can break off in a file that has no room for all of it.
-/
namespace MethodIR

namespace FileSystem

variable {fs : FileSystem} {l l' start directory : Location} {e : Entry} {p : Path}

end FileSystem

/-- What the standard output shows of a text that goes to a sink. -/
def Sink.shown (text : String) : Sink → String
  | .output => text
  | .nowhere | .full | .errorOutput | .closed _ | .file _ _ => ""

namespace Machine

variable {m : Machine} {p : Path} {text : String} {l l' : Location} {room room' : Nat}
  {device : Device}

end Machine

end MethodIR
