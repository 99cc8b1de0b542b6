import MethodIR.Proofs.Host.Looking

/-!
What can be seen of a host at one moment, as data of its own: any answers to what stands at a path
and to what a file holds, whether or not a tree of files gives them. A machine shows one view, and an
action that only looks does on the machine what it does on the view.
-/
namespace MethodIR

structure View where
  isThere : Path → Bool
  content : Path → Except AccessError ByteArray
  directory : Path

/-- What runs on a view, which takes no writing and shows nothing. -/
abbrev OnView := ReaderM View

instance : Host OnView where
  read p := do pure ((← read).content p)
  isThere p := do pure ((← read).isThere p)
  write _ _ := pure (.error (.other "read only"))
  directory := do pure (← read).directory
  print _ := pure ()
  printError _ := pure ()

def Machine.view (m : Machine) : View where
  isThere := m.files.isThere m.directory
  content := m.read
  directory := ⟨true, m.directory⟩

namespace OnView

theorem run_bind {α β : Type} (act : OnView α) (f : α → OnView β) (v : View) :
    (act >>= f).run v = (f (act.run v)).run v := rfl

theorem run_findM? (v : View) (ps : List Path) :
    (ps.findM? fun p => (Host.isThere p : OnView Bool)).run v = ps.find? v.isThere := by
  induction ps with
  | nil => rfl
  | cons p ps ih =>
    have hstep : ((p :: ps).findM? fun p => (Host.isThere p : OnView Bool)).run v =
        (match v.isThere p with
          | true => pure (some p)
          | false => ps.findM? fun p => (Host.isThere p : OnView Bool)).run v := rfl
    rw [hstep, List.find?_cons]
    cases v.isThere p with
    | true => rfl
    | false => exact ih

end OnView

theorem OnMachine.value_findM? (m : Machine) (ps : List Path) :
    (ps.findM? fun p => (Host.isThere p : OnMachine Bool)).value m = ps.find? m.view.isThere := by
  induction ps with
  | nil => rfl
  | cons p ps ih =>
    have hstep : ((p :: ps).findM? fun p => (Host.isThere p : OnMachine Bool)).value m =
        (match m.view.isThere p with
          | true => pure (some p)
          | false => ps.findM? fun p => (Host.isThere p : OnMachine Bool)).value m := rfl
    rw [hstep, List.find?_cons]
    cases m.view.isThere p with
    | true => rfl
    | false => exact ih

end MethodIR
