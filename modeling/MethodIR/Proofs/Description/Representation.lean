import MethodIR.Proofs.Description.Unit
import MethodIR.Scope.Summary

/-!
What a built unit is: below one script, every described method stands for its description, with the
variables that its instructions use and no others.
-/
namespace MethodIR

open VariableTable (localIn)

/-- The named variable that an operand reads. -/
def Operand.locals (x : Operand) : List LocalVariable := (x.named?.bind Variable.local?).toList

namespace Instruction

/-- The operands that an instruction reads. -/
def operands : Instruction → List Operand
  | .copy _ value | .giveBack value => [value]
  | .call _ receiver _ args => receiver :: args
  | _ => []

/-- The named variables in an instruction, those that it reads first. -/
def locals (i : Instruction) : List LocalVariable :=
  i.operands.flatMap Operand.locals ++ (i.result?.bind Variable.local?).toList

end Instruction

namespace Description

variable (frame : List String)

theorem Value.locals_operand (v : Value) :
    (v.operand frame).locals = v.names.map (localIn frame) := by
  cases v <;> rfl

theorem locals_operand (value : Option Value) :
    (operand frame value).locals = (value.toList.flatMap Value.names).map (localIn frame) := by
  cases value with
  | none => rfl
  | some v => simpa [operand] using v.locals_operand frame

theorem locals_operands (args : List Value) :
    (args.map (Value.operand frame)).flatMap Operand.locals =
      (args.flatMap Value.names).map (localIn frame) := by
  simp only [List.flatMap_map, List.map_flatMap, Value.locals_operand]

/-- An instruction has the variables of the names in its step, and no others. -/
theorem Step.locals_instruction (s : Step) (temporary : UInt32) :
    (s.instruction frame temporary).locals = s.names.map (localIn frame) := by
  cases s with
  | copy name value =>
    simp only [instruction, Instruction.locals, Instruction.operands, List.flatMap_singleton,
      locals_operand, names, sourceNames, List.map_append]
    rfl
  | call result callee args =>
    simp only [instruction, Instruction.locals, Instruction.operands, List.flatMap_cons,
      locals_operands, names, sourceNames, List.map_append]
    cases result <;> rfl
  | giveBack value =>
    simp only [instruction, Instruction.locals, Instruction.operands, List.flatMap_singleton,
      locals_operand, names, sourceNames]
    exact List.append_nil _
  | receive | receiveOptional | receiveKeyword | receivePost | receiveRest | receiveBlock
  | receiveSelf | line => rfl

end Description

/-- A method that stands for a description. Its frame has the names of the body once each, in the
order of their first use; its instructions are those of the steps over that final frame, where a
call without a named result writes the temporary with the number of such calls before it. Slots are
numbers of 32 bits, so they count up for as many names as there are such numbers. -/
structure Method.Translates (m : Method) (d : Description.Method) : Prop where
  name : m.name = d.name
  line : m.header.line = d.line
  isInstance : m.isInstance = d.isInstance
  names : m.locals.names = (d.body.flatMap Description.Step.names).eraseDups
  locals : m.locals.toList = m.locals.names.mapIdx fun slot name => ⟨name, 0, .ofNat slot⟩
  slots : m.locals.names.length ≤ 2 ^ 32 → ∀ (slot : Nat) (v : LocalVariable),
    m.locals.toList[slot]? = some v → v.slot.toNat = slot
  occurs : ∀ v, v ∈ m.locals.toList ↔ ∃ i ∈ m.instructions, v ∈ i.locals
  instructions : m.instructions = mapBefore (fun before s =>
    s.instruction m.locals.names (.ofNat (before.countP Description.Step.takesTemporary))) d.body
  signature : m.signature = m.instructions.filterMap Instruction.signatureEntry?
  parameters : m.parameters.map (fun p => (p.kind.symbol, p.name)) =
    d.params.map fun p => (p.kind, p.name)

namespace Description

theorem Param.map_filterMap_parameter? {params : List Param}
    (h : ∀ p ∈ params, p.kind ∈ kindSymbols) :
    (params.filterMap Param.parameter?).map (fun p => (p.kind.symbol, p.name)) =
      params.map fun p => (p.kind, p.name) := by
  induction params with
  | nil => rfl
  | cons p params ih =>
    obtain ⟨hp, hparams⟩ := List.forall_mem_cons.1 h
    obtain ⟨kind, hkind, hsymbol⟩ := Param.parameter?_of_mem hp
    rw [List.filterMap_cons_some hkind, List.map_cons, List.map_cons, ih hparams, hsymbol]

namespace Method

variable {d : Method}

/-- The variables of a frame are just those that the instructions use. -/
theorem mem_locals_iff (d : Method) (v : LocalVariable) :
    v ∈ d.frame.map (localIn d.frame) ↔ ∃ i ∈ d.instructions, v ∈ i.locals := by
  simp only [instructions, mem_mapBefore, List.mem_map, frame, List.mem_eraseDups, names,
    List.mem_flatMap]
  constructor
  · rintro ⟨name, ⟨s, hs, hn⟩, rfl⟩
    obtain ⟨k, hk⟩ := List.mem_iff_getElem?.1 hs
    refine ⟨_, ⟨k, s, hk, rfl⟩, ?_⟩
    rw [Step.locals_instruction]
    exact List.mem_map_of_mem hn
  · rintro ⟨_, ⟨k, s, hk, rfl⟩, hv⟩
    rw [Step.locals_instruction] at hv
    obtain ⟨name, hn, rfl⟩ := List.mem_map.1 hv
    exact ⟨name, ⟨s, List.mem_of_getElem? hk, hn⟩, rfl⟩

theorem map_parameters (h : d.offences = []) :
    d.parameters.map (fun p => (p.kind.symbol, p.name)) =
      d.params.map fun p => (p.kind, p.name) := by
  refine Param.map_filterMap_parameter? fun p hp => ?_
  by_contra hk
  exact List.ne_nil_of_mem (mem_offences_iff.2 (.inl ⟨p, hp, hk, rfl⟩)) h

end Method

end Description

/-- Without an offence, a translation says all that its description does. -/
theorem Arena.translates_translated {d : Description.Method} (h : d.offences = []) (a : Arena)
    (p : Header) : (a.translated p d).Translates d := by
  have hnames : (a.translated p d).locals.names = d.frame :=
    VariableTable.names_requestAll_empty d.names
  have hlist := (a.translated p d).locals.toList_eq_mapIdx
  refine ⟨rfl, rfl, rfl, hnames, hlist, ?_, ?_, ?_, rfl, Description.Method.map_parameters h⟩
  · intro hsize slot v hv
    exact VariableTable.toNat_slot hsize hv
  · intro v
    rw [VariableTable.toList_eq, hnames]
    exact d.mem_locals_iff v
  · rw [hnames]
    rfl

namespace Description

variable {d : Description} {o : Options} {ids : List ScopeId} {a : Arena}

/-- A build that succeeds gives the whole unit, and then no method offends. -/
theorem build_eq_ok (h : d.build o = .ok (ids, a)) : d.methods.length < 2 ^ 32 ∧
    d.offences = [] ∧ ids = (d.root o).nextScopeIds d.methods.length ∧ a = d.arena o := by
  have hsize := length_lt_of_build h
  have hok : (d.build o).mapError Failure.cause = .ok (ids, a) := mapError_eq_ok_iff.2 h
  rw [build_eq hsize, refuse_bind_eq_ok_iff] at hok
  obtain ⟨hoff, heq⟩ := hok
  cases heq
  exact ⟨hsize, hoff, rfl, rfl⟩

theorem scope?_arena {k : Nat} {m : Method} (hk : k + 1 < 2 ^ 32) (hm : d.methods[k]? = some m) :
    (d.arena o).scope? ⟨.ofNat (k + 1)⟩ = some (.method
      (((d.methods.take k).foldl (Arena.grown script.header) (d.root o)).translated
        script.header m)) := by
  rw [Arena.scope?, scopes_arena, UInt32.toNat_ofNat_of_lt' hk, List.getElem?_cons_succ,
    getElem?_mapBefore, hm]
  rfl

/-- In a unit that was built, the scope after the script and `k` methods stands for the method
described after `k` others, and can be reported. Only that the slots count up needs that there are
numbers enough, so at most 2 ^ 32 names in a method. -/
theorem build_representation (h : d.build o = .ok (ids, a)) :
    ids.length = d.methods.length ∧ a.scopes.length = d.methods.length + 1 ∧
    a.scope? ⟨0⟩ = some (.script (.ofScript ⟨0⟩ ⟨0⟩ 1)) ∧ a.fileName? ⟨0⟩ = .ok d.file ∧
    ∀ k dm, d.methods[k]? = some dm → ∃ id m, ids[k]? = some id ∧ id.index.toNat = k + 1 ∧
      a.method? id = .ok m ∧ a.summary? id = .ok (m.summary d.file) ∧
      m.header.id = id ∧ m.header.parent = some ⟨0⟩ ∧ m.header.file = ⟨0⟩ ∧
      m.Translates dm := by
  obtain ⟨hsize, hoff, rfl, rfl⟩ := build_eq_ok h
  refine ⟨?_, ?_, ?_, fileName?_arena d o, ?_⟩
  · simp [Arena.nextScopeIds]
  · simp [scopes_arena]
  · rw [Arena.scope?, scopes_arena]
    rfl
  · intro k dm hk
    have hlt := (List.getElem?_eq_some_iff.1 hk).1
    have hlt' : k + 1 < 2 ^ 32 := by omega
    have hm := Arena.method?_eq_ok_iff.2 (scope?_arena (o := o) hlt' hk)
    have hlen : ((d.methods.take k).foldl (Arena.grown script.header) (d.root o)).scopes.length =
        k + 1 := by
      rw [Arena.scopes_foldl_grown, scopes_root]
      simp
      omega
    refine ⟨⟨.ofNat (k + 1)⟩, _, ?_, UInt32.toNat_ofNat_of_lt' hlt', hm, ?_, ?_, rfl, rfl, ?_⟩
    · simp [Arena.nextScopeIds, scopes_root, hlt, Nat.add_comm]
    · rw [Arena.summary?, hm]
      change ((d.arena o).fileName? ⟨0⟩ >>= _) = _
      rw [fileName?_arena]
      rfl
    · exact congrArg (fun n => ScopeId.mk (.ofNat n)) hlen
    · refine Arena.translates_translated ?_ _ _
      exact List.flatMap_eq_nil_iff.1 hoff dm (List.mem_of_getElem? hk)

/-- A step of every kind; values are looked up before the names that they are put in. -/
def everyStep : Method :=
  ⟨"each", 3, true, true, [⟨"rest", "r"⟩, ⟨"req", "a"⟩, ⟨"block", "%block"⟩],
    [.receive "a" 0, .receiveOptional "b" 1 2, .receiveKeyword "k", .receivePost "a" 0 1,
      .receiveRest "r" 2, .receiveBlock, .receiveSelf "s", .copy "c" (some (.variable "d")),
      .call none "puts" [.variable "c", .fixnum 1], .call (some "e") "f" [.variable "g"],
      .call none "%f" [.text "%"], .giveBack none, .line 7]⟩

theorem build_representation_everyStep :
    let d : Description := ⟨"a.rb", [⟨"first", 1, false, false, [], []⟩, everyStep]⟩
    ∃ ids a, d.build .default = .ok (ids, a) ∧ ids.length = 2 ∧
      ∃ id m, ids[1]? = some id ∧ a.method? id = .ok m ∧ m.Translates everyStep ∧
        m.locals.names = ["a", "b", "k", "r", blockName, "s", "d", "c", "g", "e"] ∧
        ∃ s, a.summary? id = .ok s ∧ s.name = "each" ∧ s.file = "a.rb" ∧ s.line = 3 ∧
          s.parent = some ⟨0⟩ ∧ s.signature = ["a", "b", "k", "a", "*r"] := by
  intro d
  have hbuilt : ∃ ids a, d.build .default = .ok (ids, a) := ⟨_, _, rfl⟩
  obtain ⟨ids, a, h⟩ := hbuilt
  obtain ⟨hlen, -, -, -, hall⟩ := build_representation h
  obtain ⟨id, m, hid, -, hm, hsummary, -, hparent, -, ht⟩ := hall 1 everyStep rfl
  have hnames : m.locals.names = ["a", "b", "k", "r", blockName, "s", "d", "c", "g", "e"] := by
    rw [ht.names]
    decide
  have hsignature : m.signature.map Operand.render = ["a", "b", "k", "a", "*r"] := by
    rw [ht.signature, ht.instructions, hnames]
    rfl
  exact ⟨ids, a, h, hlen, id, m, hid, hm, ht, hnames, m.summary d.file, hsummary, ht.name, rfl,
    ht.line, hparent, hsignature⟩

end Description

end MethodIR
