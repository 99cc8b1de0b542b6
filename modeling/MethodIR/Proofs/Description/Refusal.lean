import MethodIR.Proofs.Description.Unit

/-!
Which descriptions cannot be built. A build fails on exactly those with an offence, and for the
first one. What a method, a parameter or a callee is called is none, and neither is any literal.
-/
namespace MethodIR

namespace Description

/-! Other names and literals where no variable is looked up. -/

def Value.relabel (g : String → String) : Value → Value
  | .text s => .text (g s)
  | v => v

def Step.relabel (g : String → String) : Step → Step
  | .copy name value => .copy name (value.map (Value.relabel g))
  | .call result callee args => .call result (g callee) (args.map (Value.relabel g))
  | .giveBack value => .giveBack (value.map (Value.relabel g))
  | s => s

def Method.relabel (g : String → String) (m : Method) : Method :=
  { m with
    name := g m.name
    params := m.params.map fun p => ⟨p.kind, g p.name⟩
    body := m.body.map (Step.relabel g) }

def relabel (g : String → String) (d : Description) : Description :=
  ⟨g d.file, d.methods.map (Method.relabel g)⟩

variable {d : Description} {o : Options} (g : String → String)

theorem Value.names_relabel (v : Value) : (v.relabel g).names = v.names := by
  cases v <;> rfl

theorem Step.sourceNames_relabel (s : Step) : (s.relabel g).sourceNames = s.sourceNames := by
  cases s with
  | copy name value | giveBack value =>
    cases value <;> simp [relabel, sourceNames, Value.names_relabel]
  | call result callee args =>
    simp [relabel, sourceNames, List.flatMap_map, Value.names_relabel]
  | receive | receiveOptional | receiveKeyword | receivePost | receiveRest | receiveBlock
  | receiveSelf | line => rfl

theorem Method.offends_relabel (m : Method) : (m.relabel g).Offends ↔ m.Offends := by
  simp [Offends, relabel, Step.sourceNames_relabel]

/-- While there are ids, the cause of a failure is the first offence. -/
theorem cause_iff (hsize : d.methods.length < 2 ^ 32) {e : BuildError} :
    (∃ f, d.build o = .error f ∧ f.cause = e) ↔ d.offences.head? = some e := by
  rw [← mapError_eq_error_iff, build_eq hsize, refuse_bind_eq_error_iff]

theorem fails_iff (hsize : d.methods.length < 2 ^ 32) :
    (∃ f, d.build o = .error f) ↔ ∃ m ∈ d.methods, m.Offends := by
  rw [← offences_ne_nil_iff]
  constructor
  · rintro ⟨f, hf⟩ hnil
    have hhead := (cause_iff hsize).1 ⟨f, hf, rfl⟩
    rw [hnil] at hhead
    cases hhead
  · intro hne
    obtain ⟨e, he⟩ := Option.ne_none_iff_exists'.1 (mt List.head?_eq_none_iff.1 hne)
    obtain ⟨f, hf, -⟩ := (cause_iff hsize).2 he
    exact ⟨f, hf⟩

/-- A build fails just when some method offends, and for its first offence, which never lies in the
arena. Names of methods, parameters and callees and literals do not matter. -/
theorem build_refusal (o : Options) (hsize : d.methods.length < 2 ^ 32) :
    ((∃ f, d.build o = .error f) ↔ ∃ m ∈ d.methods, m.Offends) ∧
    (∀ e, (∃ f, d.build o = .error f ∧ f.cause = e) ↔ d.offences.head? = some e) ∧
    (∀ f, d.build o = .error f → ∃ m ∈ d.methods,
      (∃ p ∈ m.params, p.kind ∉ kindSymbols ∧ f.cause = .unknownKind m.name p.kind) ∨
        ∃ s ∈ m.body, ∃ name ∈ s.sourceNames, ['%'] <+: name.toList ∧
          f.cause = .reservedName m.name name) ∧
    ∀ g : String → String,
      (∃ f, (d.relabel g).build o = .error f) ↔ ∃ f, d.build o = .error f := by
  refine ⟨fails_iff hsize, fun e => cause_iff hsize, fun f hf => ?_, fun g => ?_⟩
  · have hhead := (cause_iff hsize).1 ⟨f, hf, rfl⟩
    obtain ⟨m, hm, hmem⟩ := List.mem_flatMap.1 (List.mem_of_mem_head? hhead)
    exact ⟨m, hm, Method.mem_offences_iff.1 hmem⟩
  · have hsize' : (d.relabel g).methods.length < 2 ^ 32 := by simpa [relabel] using hsize
    rw [fails_iff hsize, fails_iff hsize']
    simp [relabel, Method.offends_relabel]

/-- Percent signs that do not matter, then a method that offends three times. -/
def offending : Description :=
  ⟨"%.rb",
    [⟨"%ok", 1, true, false, [⟨"req", "%p"⟩], [.call none "%puts" [.text "%s"], .receiveBlock]⟩,
      ⟨"each", 2, true, true, [⟨"req", "x"⟩, ⟨"splat", "r"⟩],
        [.receive "x" 0, .copy "%y" (some (.variable "%z"))]⟩]⟩

/-- The kind of a parameter is reported, not the names in the body. -/
theorem build_refusal_offending :
    offending.methods.length < 2 ^ 32 ∧
      offending.offences = [.unknownKind "each" "splat", .reservedName "each" "%z",
        .reservedName "each" "%y"] ∧
      ∃ f, offending.build .default = .error f ∧ f.cause = .unknownKind "each" "splat" := by
  have hsize : offending.methods.length < 2 ^ 32 := by decide
  have hoff : offending.offences = [.unknownKind "each" "splat", .reservedName "each" "%z",
      .reservedName "each" "%y"] := by decide
  refine ⟨hsize, hoff, ((build_refusal .default hsize).2.1 _).2 ?_⟩
  rw [hoff]
  rfl

end Description

end MethodIR
