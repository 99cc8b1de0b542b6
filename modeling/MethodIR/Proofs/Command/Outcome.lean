import MethodIR.Command.Run
import MethodIR.Proofs.Host.Looking

/-!
What comes of a command, the standard error output apart. The outcome of a dump follows from what it
sees of the machine; a dump that fails has shown nothing, and has written nothing unless it is the
write itself that broke off.
-/
namespace MethodIR.Command

open OnMachine

/-- An exit code, a text for the standard output, and a file to write. -/
structure Outcome where
  code : UInt8
  output : String
  written : Option (Location × ByteArray)

namespace Outcome

def failed : Outcome := ⟨1, "", none⟩

/-- The files after an outcome. -/
def files (x : Outcome) (fs : FileSystem) : FileSystem :=
  match x.written with
  | none => fs
  | some (l, bytes) => fs.put l (.file bytes)

/-- A run from a machine comes to an outcome. It stays in its directory and keeps all devices. -/
structure Of (x : Outcome) (m : Machine) (r : UInt8 × Machine) : Prop where
  code : r.1 = x.code
  output : r.2.output = m.output ++ x.output
  files : r.2.files = x.files m.files
  directory : r.2.directory = m.directory
  device? : r.2.device? = m.device?

/-- What comes of a text that goes to a sink at some location. -/
def ofPour (l : Location) (text : String) : Sink → Outcome
  | .nowhere | .errorOutput => ⟨0, "", none⟩
  | .full => if text = "" then ⟨0, "", none⟩ else failed
  | .output => ⟨0, text, none⟩
  | .closed _ => failed
  | .file room _ =>
    if text.utf8ByteSize ≤ room then ⟨0, "", some (l, text.toUTF8)⟩
    else ⟨1, "", some (l, text.toUTF8.extract 0 room)⟩

/-- What comes of a rendering that is written to a path. -/
def ofWrite (m : Machine) (p : Path) (rendering : String) : Outcome :=
  match m.files.target m.directory p with
  | .error _ => failed
  | .ok l =>
    match m.device? l with
    | some device => ofPour l rendering device.sink
    | none => ⟨0, "", some (l, rendering.toUTF8)⟩

/-- What comes of a rendering. -/
def ofDeliver (m : Machine) (d : Dump) (rendering : String) : Outcome :=
  match d.output with
  | none => ⟨0, rendering, none⟩
  | some output => ofWrite m (.ofString output) rendering

/-- What comes of a dump. -/
def ofDump (m : Machine) (d : Dump) : Outcome :=
  match (Host.readText (.ofString d.file) : OnMachine _).value m,
    (options d : OnMachine _).value m with
  | .ok source, .ok o =>
    match Report.ofSource source o with
    | .error _ => failed
    | .ok r => ofDeliver m d (render r d.format)
  | _, _ => failed

end Outcome

variable {m : Machine} {x : Outcome} {r : UInt8 × Machine}

theorem looks_options (d : Dump) : Looks (options d) := by
  refine looks_directory.bind fun directory => ?_
  refine (Config.looks_load _ directory).bind fun loaded => ?_
  exact looks_pure _

theorem value_options (m : Machine) (d : Dump) : (options d : OnMachine _).value m =
    ((Config.load (d.config.map Path.ofString) ⟨true, m.directory⟩ : OnMachine _).value m).map
      fun o => if d.irGenOnly then { o with irGenOnly := true } else o := rfl

/-- The standard error output is no part of an outcome. -/
theorem Outcome.Of.of_printError (text : String) (h : x.Of (m.printError text) r) : x.Of m r :=
  ⟨h.code, h.output, h.files, h.directory, h.device?⟩

theorem Outcome.Of.then_printError {code : UInt8} {m' : Machine} (text : String)
    (h : x.Of m (code, m')) : x.Of m (code, m'.printError text) :=
  ⟨h.code, h.output, h.files, h.directory, h.device?⟩

theorem unchanged_outcome (m : Machine) (code : UInt8) :
    Outcome.Of ⟨code, "", none⟩ m (code, m) :=
  ⟨rfl, String.append_empty.symm, rfl, rfl, rfl⟩

theorem put_outcome (m : Machine) (code : UInt8) (l : Location) (bytes : ByteArray) :
    Outcome.Of ⟨code, "", some (l, bytes)⟩ m (code, m.put l bytes) :=
  ⟨rfl, String.append_empty.symm, rfl, rfl, rfl⟩

theorem fail_outcome (m : Machine) (e : Error) :
    Outcome.failed.Of m ((fail e : OnMachine UInt8).run m) :=
  (unchanged_outcome m 1).then_printError (errorLine e)

theorem run_printError {β : Type} (text : String) (f : Unit → OnMachine β) (m : Machine) :
    (Host.printError text >>= f).run m = (f ()).run (m.printError text) := rfl

/-- How a dump ends after an attempt to write to a path. -/
def ending (path : Path) : Except AccessError Unit × Machine → UInt8 × Machine
  | (.error e, m) => (fail (.unwritable path e) : OnMachine UInt8).run m
  | (.ok (), m) => (0, m)

theorem run_write (path : Path) (rendering : String) (m : Machine) :
    (do match ← Host.write path rendering with
        | .error e => fail (.unwritable path e)
        | .ok () => pure 0 : OnMachine UInt8).run m = ending path (m.write path rendering) := by
  have hwrite : (Host.write path rendering : OnMachine _).run m = m.write path rendering := rfl
  rw [run_bind, value, hwrite]
  cases m.write path rendering with
  | mk result m' => cases result <;> rfl

theorem pour_outcome (m : Machine) (path : Path) (l : Location) (text : String) (sink : Sink) :
    (Outcome.ofPour l text sink).Of m (ending path (m.pour l text sink)) := by
  cases sink with
  | nowhere => exact unchanged_outcome m 0
  | errorOutput => exact (unchanged_outcome m 0).then_printError text
  | output => exact ⟨rfl, rfl, rfl, rfl, rfl⟩
  | closed e => exact fail_outcome m _
  | full =>
    by_cases ht : text = ""
    · simp only [Machine.pour, Outcome.ofPour, if_pos ht]
      exact unchanged_outcome m 0
    · simp only [Machine.pour, Outcome.ofPour, if_neg ht]
      exact fail_outcome m _
  | file room e =>
    by_cases hroom : text.utf8ByteSize ≤ room
    · simp only [Machine.pour, Outcome.ofPour, if_pos hroom]
      exact put_outcome m 0 l _
    · simp only [Machine.pour, Outcome.ofPour, if_neg hroom]
      exact (put_outcome m 1 l _).then_printError _

theorem write_outcome (m : Machine) (path : Path) (rendering : String) :
    (Outcome.ofWrite m path rendering).Of m (ending path (m.write path rendering)) := by
  rw [Machine.write, Outcome.ofWrite]
  cases m.files.target m.directory path with
  | error e => exact fail_outcome m _
  | ok l =>
    dsimp only
    cases m.device? l with
    | some device => exact pour_outcome m path l rendering device.sink
    | none => exact put_outcome m 0 l _

theorem deliver_outcome (m : Machine) (d : Dump) (rendering : String) :
    (Outcome.ofDeliver m d rendering).Of m ((deliver d rendering : OnMachine UInt8).run m) := by
  rw [Outcome.ofDeliver]
  cases hd : d.output with
  | none =>
    rw [deliver, hd]
    exact ⟨rfl, rfl, rfl, rfl, rfl⟩
  | some output =>
    have hwrite := write_outcome (m.printError (statusLine "Writing" ("scopes to " ++
      (Path.ofString output).text))) (.ofString output) rendering
    rw [← run_write] at hwrite
    rw [deliver, hd]
    exact hwrite.of_printError _

/-- A dump reads its source and its options, builds, and only then shows or writes something. -/
theorem dump_outcome (m : Machine) (d : Dump) :
    (Outcome.ofDump m d).Of m ((dump d : OnMachine UInt8).run m) := by
  rw [dump, (looks_readText _).run_bind, Outcome.ofDump]
  cases (Host.readText (Path.ofString d.file) : OnMachine _).value m with
  | error e => exact fail_outcome m _
  | ok source =>
    rw [(looks_options d).run_bind]
    cases (options d : OnMachine _).value m with
    | error e => exact fail_outcome m _
    | ok o =>
      simp only [run_printError]
      cases Report.ofSource source o with
      | error e => exact (fail_outcome (m.printError _) _).of_printError _
      | ok report => exact (deliver_outcome (m.printError _) d _).of_printError _

end MethodIR.Command
