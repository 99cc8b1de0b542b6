import MethodIR.Description.Build
import MethodIR.Proofs.Result

/-!
What a description may not say. A build reports the first offence in the order of the text:
parameters before the body, and within a step values before destinations.
-/
namespace MethodIR

/-- Fails with the first offence. -/
def refuse (offences : List BuildError) : Except BuildError Unit :=
  match offences.head? with
  | none => pure ()
  | some e => .error e

@[simp] theorem refuse_nil : refuse [] = pure () := rfl

@[simp] theorem refuse_cons (e : BuildError) (es : List BuildError) :
    refuse (e :: es) = .error e := rfl

theorem refuse_append (es es' : List BuildError) :
    refuse (es ++ es') = (do refuse es; refuse es') := by
  cases es <;> rfl

theorem refuse_bind_eq_error_iff {α : Type} {es : List BuildError} {x : α} {e : BuildError} :
    (do refuse es; pure x) = Except.error e ↔ es.head? = some e := by
  cases es with
  | nil => simp [pure, Except.pure, bind, Except.bind]
  | cons e' es => simp [bind, Except.bind]

theorem refuse_bind_eq_ok_iff {α : Type} {es : List BuildError} {x y : α} :
    (do refuse es; pure x) = (Except.ok y : Except BuildError α) ↔ es = [] ∧ x = y := by
  cases es with
  | nil => simp [pure, Except.pure, bind, Except.bind]
  | cons e' es => simp [bind, Except.bind]

/-- The offences of a method that takes these names from the source. -/
def reservedNames (method : String) (names : List String) : List BuildError :=
  (names.filter isReserved).map (.reservedName method)

@[simp] theorem reservedNames_append (method : String) (ns ms : List String) :
    reservedNames method (ns ++ ms) = reservedNames method ns ++ reservedNames method ms := by
  simp [reservedNames]

@[simp] theorem reservedNames_nil (method : String) : reservedNames method [] = [] := rfl

theorem isReserved_iff {name : String} : isReserved name = true ↔ ['%'] <+: name.toList := by
  unfold isReserved
  cases name.toList with
  | nil => simp
  | cons c cs =>
    simp only [List.head?_cons, beq_iff_eq, Option.some.injEq, List.cons_prefix_cons,
      List.nil_prefix, and_true]
    exact eq_comm

namespace Description

/-- The names that a value takes from the source. -/
def Value.names : Value → List String
  | .variable name => [name]
  | .fixnum _ | .text _ => []

/-- The names that a step takes from the source, in the order in which it looks them up. -/
def Step.sourceNames : Step → List String
  | .receive name _ | .receiveOptional name _ _ | .receiveKeyword name | .receivePost name _ _
  | .receiveRest name _ | .receiveSelf name => [name]
  | .copy name value => value.toList.flatMap Value.names ++ [name]
  | .call result _ args => args.flatMap Value.names ++ result.toList
  | .giveBack value => value.toList.flatMap Value.names
  | .receiveBlock | .line _ => []

/-- The symbols of the kinds that a parameter can have. -/
def kindSymbols : List String := ["req", "opt", "rest", "key", "keyrest", "block"]

def Param.offences (method : String) (p : Param) : List BuildError :=
  if p.kind ∈ kindSymbols then [] else [.unknownKind method p.kind]

def Step.offences (method : String) (s : Step) : List BuildError :=
  reservedNames method s.sourceNames

namespace Method

/-- The parameters come first, whatever the order in the text. -/
def offences (d : Method) : List BuildError :=
  d.params.flatMap (Param.offences d.name) ++ d.body.flatMap (Step.offences d.name)

/-- Some parameter has a kind that does not exist, or some step takes a reserved name. -/
def Offends (d : Method) : Prop :=
  (∃ p ∈ d.params, p.kind ∉ kindSymbols) ∨
    ∃ s ∈ d.body, ∃ name ∈ s.sourceNames, ['%'] <+: name.toList

/-- An offence names the method that it is in, and what offends there. -/
theorem mem_offences_iff {d : Method} {e : BuildError} : e ∈ d.offences ↔
    (∃ p ∈ d.params, p.kind ∉ kindSymbols ∧ e = .unknownKind d.name p.kind) ∨
      ∃ s ∈ d.body, ∃ name ∈ s.sourceNames, ['%'] <+: name.toList ∧
        e = .reservedName d.name name := by
  simp only [offences, List.mem_append, List.mem_flatMap, Param.offences, Step.offences,
    reservedNames, List.mem_map, List.mem_filter, ← isReserved_iff]
  refine or_congr ?_ ?_
  · refine exists_congr fun p => and_congr_right fun _ => ?_
    split <;> simp [*]
  · simp only [and_assoc, eq_comm]

theorem offends_iff {d : Method} : d.Offends ↔ d.offences ≠ [] := by
  constructor
  · rintro (⟨p, hp, hk⟩ | ⟨s, hs, name, hn, hr⟩)
    · exact List.ne_nil_of_mem (mem_offences_iff.2 (.inl ⟨p, hp, hk, rfl⟩))
    · exact List.ne_nil_of_mem (mem_offences_iff.2 (.inr ⟨s, hs, name, hn, hr, rfl⟩))
  · intro h
    obtain ⟨e, he⟩ := List.exists_mem_of_ne_nil _ h
    obtain ⟨p, hp, hk, -⟩ | ⟨s, hs, name, hn, hr, -⟩ := mem_offences_iff.1 he
    · exact .inl ⟨p, hp, hk⟩
    · exact .inr ⟨s, hs, name, hn, hr⟩

end Method

/-- The offences of all methods in their order. -/
def offences (d : Description) : List BuildError := d.methods.flatMap Method.offences

theorem offences_ne_nil_iff {d : Description} :
    d.offences ≠ [] ↔ ∃ m ∈ d.methods, m.Offends := by
  simp [offences, Method.offends_iff]

end Description

end MethodIR
