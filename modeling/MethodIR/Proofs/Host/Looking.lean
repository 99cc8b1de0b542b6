import MethodIR.Config.Basic
import MethodIR.Host.Machine

/-!
Actions that only look at a machine: reading files, searching for them, asking for the directory.
They leave the machine as it is, so an action after one of them finds the machine that it found.
-/
namespace MethodIR

namespace OnMachine

variable {α β : Type} {act : OnMachine α} {f : α → OnMachine β}

/-- What an action gives on a machine. -/
def value (act : OnMachine α) (m : Machine) : α := (act.run m).1

/-- The action changes no machine. -/
def Looks (act : OnMachine α) : Prop := ∀ m, (act.run m).2 = m

theorem looks_pure (a : α) : Looks (pure a) := fun _ => rfl

theorem run_bind (act : OnMachine α) (f : α → OnMachine β) (m : Machine) :
    (act >>= f).run m = (f (act.value m)).run (act.run m).2 := rfl

theorem Looks.run_bind (h : Looks act) (f : α → OnMachine β) (m : Machine) :
    (act >>= f).run m = (f (act.value m)).run m := by
  rw [OnMachine.run_bind, h m]

theorem Looks.bind (h : Looks act) (hf : ∀ a, Looks (f a)) : Looks (act >>= f) := by
  intro m
  rw [h.run_bind]
  exact hf (act.value m) m

theorem Looks.findM? {p : α → OnMachine Bool} (hp : ∀ a, Looks (p a)) (as : List α) :
    Looks (as.findM? p) := by
  induction as with
  | nil => exact looks_pure none
  | cons a as ih =>
    refine (hp a).bind fun found => ?_
    cases found with
    | false => exact ih
    | true => exact looks_pure (some a)

theorem looks_read (p : Path) : Looks (Host.read p) := fun _ => rfl

theorem looks_isThere (p : Path) : Looks (Host.isThere p) := fun _ => rfl

theorem looks_directory : Looks Host.directory := fun _ => rfl

theorem looks_readText (p : Path) : Looks (Host.readText p) := by
  refine (looks_read p).bind fun read => ?_
  cases read with
  | error e => exact looks_pure _
  | ok bytes =>
    dsimp only
    split
    · exact looks_pure _
    · exact looks_pure _

theorem fromUTF8?_toUTF8 (s : String) : String.fromUTF8? s.toUTF8 = some s :=
  dif_pos s.isValidUTF8

/-- A file with the octets of a text reads as that text. -/
theorem value_readText {m : Machine} {p : Path} {s : String} (h : m.read p = .ok s.toUTF8) :
    (Host.readText p : OnMachine _).value m = .ok s := by
  have hread : (Host.read p : OnMachine _).value m = .ok s.toUTF8 := h
  rw [value, Host.readText, (looks_read p).run_bind, hread]
  simp only [fromUTF8?_toUTF8]
  rfl

end OnMachine

open OnMachine

namespace Config

theorem looks_find? (start : Path) : Looks (find? start) := Looks.findM? looks_isThere _

theorem looks_read (path : Path) : Looks (read path) := by
  refine (looks_readText path).bind fun text => ?_
  cases text with
  | error e => exact looks_pure _
  | ok s => exact looks_pure _

/-- A file with a text is read for the options that the text sets. -/
theorem value_read {m : Machine} {path : Path} {s : String} (h : m.read path = .ok s.toUTF8) :
    (read path : OnMachine _).value m = (Options.ofToml s).mapError (.invalid path) := by
  rw [value, read, (looks_readText path).run_bind, value_readText h]
  rfl

/-- The nearest file is read as if it were given. -/
theorem value_load_of_find? {m : Machine} {start path : Path}
    (h : (find? start : OnMachine _).value m = some path) :
    (load none start : OnMachine _).value m = (read path : OnMachine _).value m := by
  rw [value, load, (looks_find? start).run_bind, h]
  rfl

theorem looks_load (explicit : Option Path) (start : Path) : Looks (load explicit start) := by
  cases explicit with
  | some path => exact looks_read path
  | none =>
    refine (looks_find? start).bind fun found => ?_
    cases found with
    | none => exact looks_pure _
    | some path => exact looks_read path

end Config

end MethodIR
