import MethodIR.Proofs.Instruction.Reading

/-!
Equal texts belong to equal instructions. In a built method the depth and the slot of a variable follow
from its name, so that there nothing is lost at all.
-/
namespace MethodIR

open Description (variableIn)

variable {f g : Variable → Variable} {x : Operand} {i j : Instruction}

/-! Changes of variables that can be undone. -/

theorem Operand.mapVariable_undone (h : ∀ v, x.named? = some v → g (f v) = v) :
    (x.mapVariable f).mapVariable g = x := by
  induction x with
  | «variable» v => exact congrArg Operand.variable (h v rfl)
  | splat inner ih => exact congrArg Operand.splat (ih h)
  | nil | fixnum | text | self => rfl

theorem Instruction.mapVariables_undone (h : ∀ v ∈ i.variables, g (f v) = v) :
    (i.mapVariables f).mapVariables g = i := by
  have hresult : ∀ v, i.result? = some v → g (f v) = v := by
    intro v hv
    exact h v (List.mem_append_right _ (Option.mem_toList.2 hv))
  have hoperand : ∀ x ∈ i.operands, (x.mapVariable f).mapVariable g = x := by
    intro x hx
    apply Operand.mapVariable_undone
    intro v hv
    exact h v (List.mem_append_left _ (List.mem_filterMap.2 ⟨x, hx, hv⟩))
  cases i with
  | receiveRequired v | receiveOptional v | receiveKeyword v | receivePost v | receiveRest v
  | receiveBlock v | receiveSelf v => rw [mapVariables, mapVariables, hresult v rfl]
  | copy v x =>
    rw [mapVariables, mapVariables, hresult v rfl, hoperand x List.mem_cons_self]
  | call v x name args =>
    have hargs : (args.map (Operand.mapVariable f)).map (Operand.mapVariable g) = args := by
      rw [List.map_map]
      refine (List.map_congr_left fun y hy => ?_).trans (List.map_id args)
      exact hoperand y (List.mem_cons_of_mem x hy)
    rw [mapVariables, mapVariables, hresult v rfl, hoperand x List.mem_cons_self, hargs]
  | giveBack x => rw [mapVariables, mapVariables, hoperand x List.mem_cons_self]
  | line => rfl

/-- Equal texts of instructions with plain names belong to instructions that are equal up to the
depths and slots of their variables. -/
theorem Instruction.bare_of_render (hi : i.isPlain) (hj : j.isPlain) (h : i.render = j.render) :
    i.bare = j.bare := by
  apply bare_of_tokens hi hj
  apply Token.Apart.inj (apart_tokens hi) (apart_tokens hj)
  rw [textOf_tokens, textOf_tokens, h]

/-! Built methods. -/

/-- Gives a local the slot that its name has in the frame. -/
def Variable.inFrame (frame : List String) : Variable → Variable
  | .ofLocal v => variableIn frame v.name
  | .ofTemporary v => .ofTemporary v

namespace Description

/-- The names of keywords and callees. -/
def Step.labels : Step → List String
  | .receiveKeyword name | .call _ name _ => [name]
  | _ => []

/-- All names in the step are plain. -/
def Step.isPlain (s : Step) : Bool :=
  s.sourceNames.all isPlainName && s.labels.all isIdentifier

theorem Step.isPlain_iff {s : Step} : s.isPlain ↔
    (∀ name ∈ s.sourceNames, isPlainName name) ∧ ∀ name ∈ s.labels, isIdentifier name := by
  simp [Step.isPlain]

theorem Step.labels_instruction (s : Step) (frame : List String) (temporary : UInt32) :
    (s.instruction frame temporary).labels = s.labels := by
  cases s <;> rfl

theorem Step.isPlain_instruction {s : Step} (h : s.isPlain) (frame : List String)
    (temporary : UInt32) : (s.instruction frame temporary).isPlain := by
  obtain ⟨hnames, hlabels⟩ := isPlain_iff.1 h
  refine Instruction.isPlain_iff.2 ⟨?_, ?_⟩
  · intro v hv
    rcases variables_instruction hv with ⟨name, hn, rfl⟩ | ⟨-, rfl⟩
    · have hblock : isPlainName blockName := by decide
      rcases mem_names_iff.1 hn with ⟨-, rfl⟩ | hsource
      · exact hblock
      · exact hnames name hsource
    · rfl
  · rw [labels_instruction]
    exact hlabels

end Description

namespace Method.Translates

variable {m : Method} {d : Description.Method} (h : m.Translates d)

include h

theorem isPlain_instructions (hd : d.body.all Description.Step.isPlain)
    (hi : i ∈ m.instructions) : i.isPlain := by
  rw [h.instructions, mem_mapBefore] at hi
  obtain ⟨k, s, hs, rfl⟩ := hi
  exact Description.Step.isPlain_instruction (List.all_eq_true.1 hd s (List.mem_of_getElem? hs)) _ _

theorem bare_inj (hi : i ∈ m.instructions) (hj : j ∈ m.instructions) (hij : i.bare = j.bare) :
    i = j := by
  have hframe : ∀ i ∈ m.instructions, i.bare.mapVariables (.inFrame m.locals.names) = i := by
    intro i hi
    apply Instruction.mapVariables_undone
    intro v hv
    obtain ⟨k, hk⟩ := List.mem_iff_getElem?.1 hi
    rcases h.variables_cases hk hv with ⟨name, -, rfl⟩ | ⟨s, -, -, rfl⟩
    · rfl
    · rfl
  rw [← hframe i hi, ← hframe j hj, hij]

end Method.Translates

namespace Description

variable {d : Description} {o : Options} {ids : List ScopeId} {a : Arena}

theorem exists_method_of_build (h : d.build o = .ok (ids, a)) {k : Nat} {dm : Method}
    (hk : d.methods[k]? = some dm) :
    ∃ id m, ids[k]? = some id ∧ a.method? id = .ok m ∧ m.Translates dm := by
  obtain ⟨hsize, hoff, rfl, rfl⟩ := build_eq_ok h
  have hlt := (List.getElem?_eq_some_iff.1 hk).1
  exact ⟨_, _, getElem?_nextScopeIds_root hlt, method?_arena hsize hk, translates_methodAt hoff hk⟩

end Description

/-- If all names are plain, the text of an instruction determines it up to the depths and slots of its
variables, and within a built method it determines it altogether. -/
theorem render_unambiguous :
    (∀ i j : Instruction, i.isPlain → j.isPlain → i.render = j.render → i.bare = j.bare) ∧
    ∀ (d : Description) (o : Options) (ids : List ScopeId) (a : Arena),
      d.build o = .ok (ids, a) → ∀ (k : Nat) (dm : Description.Method), d.methods[k]? = some dm →
      dm.body.all Description.Step.isPlain →
      ∃ id m, ids[k]? = some id ∧ a.method? id = .ok m ∧
        ∀ i ∈ m.instructions, ∀ j ∈ m.instructions, i.render = j.render → i = j := by
  refine ⟨fun i j hi hj h => Instruction.bare_of_render hi hj h, ?_⟩
  intro d o ids a hbuild k dm hk hplain
  obtain ⟨id, m, hid, hm, ht⟩ := Description.exists_method_of_build hbuild hk
  refine ⟨id, m, hid, hm, ?_⟩
  intro i hi j hj hij
  apply ht.bare_inj hi hj
  exact Instruction.bare_of_render (ht.isPlain_instructions hplain hi)
    (ht.isPlain_instructions hplain hj) hij

/-- A literal full of what stands around it, and variables in different places. -/
theorem render_unambiguous_quotes :
    let call (depth slot : UInt32) : Instruction :=
      .call (.ofLocal ⟨"x", depth, slot⟩) (.text "\", [%self])\n") "m"
        [.splat (.splat (.variable (.ofLocal ⟨"_y", slot, depth⟩))), .fixnum Int64.minValue]
    let dm : Description.Method :=
      ⟨"m", 1, true, false, [], [.copy "x" (some (.text "\", %block")), .receiveBlock,
        .copy "x" (some (.text "\", %block"))]⟩
    call 0 1 ≠ call 7 2 ∧ (call 0 1).bare = (call 7 2).bare ∧
      ∃ ids a, (Description.mk "a.rb" [dm]).build .default = .ok (ids, a) ∧
        ∃ id m, ids[0]? = some id ∧ a.method? id = .ok m ∧
          ∀ i ∈ m.instructions, ∀ j ∈ m.instructions, i.render = j.render → i = j := by
  intro call dm
  have hbuilt : ∃ ids a, (Description.mk "a.rb" [dm]).build .default = .ok (ids, a) :=
    ⟨_, _, rfl⟩
  obtain ⟨ids, a, hbuild⟩ := hbuilt
  refine ⟨by decide, ?_, ids, a, hbuild, ?_⟩
  · exact render_unambiguous.1 (call 0 1) (call 7 2) (by decide) (by decide) rfl
  · exact render_unambiguous.2 _ _ ids a hbuild 0 dm rfl (by decide)

end MethodIR
