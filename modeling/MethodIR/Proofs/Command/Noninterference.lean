import MethodIR.Proofs.Command.Outcome
import MethodIR.Proofs.Description.Erasure

/-!
Options do not show. They decide which methods are traced and which static scopes are linked, and
nothing that is reported depends on either. So a dump comes to the same whatever it is configured
to do, as long as it is configured at all.
-/
namespace MethodIR.Command

open OnMachine

variable {m m' : Machine} {d d' : Dump}

/-- The flag is put into options that have been loaded, so it decides nothing on loading them. -/
theorem isOk_options_flag (m : Machine) (d : Dump) (flag : Bool) :
    ((options { d with irGenOnly := flag } : OnMachine _).value m).isOk =
      ((options d : OnMachine _).value m).isOk := by
  rw [value_options, value_options]
  cases (Config.load (d.config.map Path.ofString) ⟨true, m.directory⟩ : OnMachine _).value m <;> rfl

/-- What a dump comes to follows from the text of its source, whether options are loaded, and where
its output leads. -/
theorem ofDump_congr (hformat : d'.format = d.format) (houtput : d'.output = d.output)
    (hsource : (Host.readText (.ofString d'.file) : OnMachine _).value m' =
      (Host.readText (.ofString d.file) : OnMachine _).value m)
    (hoptions : ((options d' : OnMachine _).value m').isOk =
      ((options d : OnMachine _).value m).isOk)
    (htarget : ∀ output, d.output = some output →
      m'.files.target m'.directory (.ofString output) =
        m.files.target m.directory (.ofString output))
    (hdevice : m'.device? = m.device?) : Outcome.ofDump m' d' = Outcome.ofDump m d := by
  have hdeliver : ∀ rendering,
      Outcome.ofDeliver m' d' rendering = Outcome.ofDeliver m d rendering := by
    intro rendering
    rw [Outcome.ofDeliver, Outcome.ofDeliver, houtput]
    cases hd : d.output with
    | none => rfl
    | some output => simp only [Outcome.ofWrite, htarget output hd, hdevice]
  rw [Outcome.ofDump, Outcome.ofDump, hsource]
  cases (Host.readText (.ofString d.file) : OnMachine _).value m with
  | error e => rfl
  | ok source =>
    cases ho : (options d : OnMachine _).value m with
    | error e =>
      cases ho' : (options d' : OnMachine _).value m' with
      | error e' => rfl
      | ok o' =>
        rw [ho, ho'] at hoptions
        cases hoptions
    | ok o =>
      cases ho' : (options d' : OnMachine _).value m' with
      | error e' =>
        rw [ho, ho'] at hoptions
        cases hoptions
      | ok o' => simp only [Report.ofSource_options source o' o, hformat, hdeliver]

/-- Reports are the same under all options, and builds differ in nothing but the options they store,
the trace flags of methods and the links of static scopes. So what comes of a dump does not depend
on the flag, nor on which of two configurations is in force, if both can be loaded. -/
theorem dump_ignores_options :
    (∀ (source : String) (o o' : Options), Report.ofSource source o = Report.ofSource source o') ∧
    (∀ (d : Description) (o o' : Options), Description.BuildsAlike o o' (d.build o) (d.build o')) ∧
    (∀ (m : Machine) (d : Dump) (flag : Bool),
      let r := (dump d : OnMachine UInt8).run m
      let r' := (dump { d with irGenOnly := flag } : OnMachine UInt8).run m
      r'.1 = r.1 ∧ r'.2.output = r.2.output ∧ r'.2.files = r.2.files) ∧
    ∀ (m m' : Machine) (d : Dump) (config : Option String) (flag : Bool) (source : String)
      (o o' : Options),
      let d' := { d with config := config, irGenOnly := flag }
      (Host.readText (.ofString d.file) : OnMachine _).value m = .ok source →
      (Host.readText (.ofString d'.file) : OnMachine _).value m' = .ok source →
      (options d : OnMachine _).value m = .ok o → (options d' : OnMachine _).value m' = .ok o' →
      (∀ output, d.output = some output → m'.files.target m'.directory (.ofString output) =
        m.files.target m.directory (.ofString output)) → m'.device? = m.device? →
      ∃ x : Outcome, x.Of m ((dump d : OnMachine UInt8).run m) ∧
        x.Of m' ((dump d' : OnMachine UInt8).run m') := by
  refine ⟨Report.ofSource_options, Description.build_alike, fun m d flag => ?_, ?_⟩
  · have hsame : Outcome.ofDump m { d with irGenOnly := flag } = Outcome.ofDump m d :=
      ofDump_congr rfl rfl rfl (isOk_options_flag m d flag) (fun _ _ => rfl) rfl
    have h := dump_outcome m d
    have h' := dump_outcome m { d with irGenOnly := flag }
    rw [hsame] at h'
    exact ⟨h'.code.trans h.code.symm, h'.output.trans h.output.symm, h'.files.trans h.files.symm⟩
  · intro m m' d config flag source o o' d' hsource hsource' ho ho' htarget hdevice
    have hsame : Outcome.ofDump m' d' = Outcome.ofDump m d :=
      ofDump_congr rfl rfl (hsource'.trans hsource.symm) (by rw [ho, ho']; rfl) htarget hdevice
    exact ⟨Outcome.ofDump m d, dump_outcome m d, hsame ▸ dump_outcome m' d'⟩

/-- A unit with a static scope, dumped to a file under the configuration of the directory, which
traces, and under an explicit one with the flag. -/
theorem dump_ignores_options_traced :
    let source := "\x7b\"file\":\"a.rb\",\"methods\":[\x7b\"name\":\"m\",\"static_scope\":true," ++
      "\"body\":[\x7b\"op\":\"recv_arg\",\"name\":\"a\",\"index\":0\x7d]\x7d]\x7d"
    let files := (FileSystem.empty.put ["u.json"] (.file source.toUTF8)).put ["garnet.toml"]
      (.file "ir.trace_signature=true".toUTF8)
    let m := Machine.ofFiles files []
    let d : Dump := ⟨"u.json", some "out.txt", .text, none, false⟩
    let d' := { d with config := some "other.toml", irGenOnly := true }
    let m' := Machine.ofFiles (files.put ["other.toml"] (.file "".toUTF8)) []
    (options d : OnMachine _).value m = .ok ⟨false, true⟩ ∧
      (options d' : OnMachine _).value m' = .ok ⟨true, false⟩ ∧
      ∃ x : Outcome, x.Of m ((dump d : OnMachine UInt8).run m) ∧
        x.Of m' ((dump d' : OnMachine UInt8).run m') := by
  intro source files m d d' m'
  have hread : m.read (.ofString "u.json") = .ok source.toUTF8 := rfl
  have hread' : m'.read (.ofString "u.json") = .ok source.toUTF8 := rfl
  have hconfig : m.read ⟨true, ["garnet.toml"]⟩ = .ok "ir.trace_signature=true".toUTF8 := rfl
  have hconfig' : m'.read (.ofString "other.toml") = .ok "".toUTF8 := rfl
  have hfind : (Config.find? ⟨true, []⟩ : OnMachine _).value m =
      some ⟨true, ["garnet.toml"]⟩ := by
    rw [Config.find?, Config.candidates, Path.ancestors]
    rfl
  have hload : (Config.load none ⟨true, []⟩ : OnMachine _).value m = .ok ⟨false, true⟩ := by
    have htoml : Options.ofToml "ir.trace_signature=true" = .ok ⟨false, true⟩ := by
      with_unfolding_all rfl
    rw [Config.value_load_of_find? hfind, Config.value_read hconfig, htoml]
    rfl
  have hload' : (Config.load (some (.ofString "other.toml")) ⟨true, []⟩ : OnMachine _).value m' =
      .ok .default := by
    change (Config.read _ : OnMachine _).value m' = _
    rw [Config.value_read hconfig']
    rfl
  have ho : (options d : OnMachine _).value m = .ok ⟨false, true⟩ := by
    rw [value_options]
    exact congrArg (Except.map _) hload
  have ho' : (options d' : OnMachine _).value m' = .ok ⟨true, false⟩ := by
    rw [value_options]
    exact congrArg (Except.map _) hload'
  refine ⟨ho, ho', ?_⟩
  refine dump_ignores_options.2.2.2 m m' d (some "other.toml") true source _ _
    (value_readText hread) (value_readText hread') ho ho' ?_ rfl
  intro output houtput
  obtain rfl : "out.txt" = output := Option.some.inj houtput
  rfl

end MethodIR.Command
