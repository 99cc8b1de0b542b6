import MethodIR.Proofs.Description.Links
import MethodIR.Proofs.Method.Histories

/-!
Names that the source gives and names that the build gives do not meet. In a built method only the
block has a reserved name, temporaries are told apart from all else, and the text of a variable says
which one it is.
-/
namespace MethodIR

open Description (variableIn)

/-- The variables that occur in an instruction, those that it reads first. -/
def Instruction.variables (i : Instruction) : List Variable :=
  i.operands.filterMap Operand.named? ++ i.result?.toList

/-- The variables that occur in a method: in its frame, its instructions or its signature. -/
def Method.variables (m : Method) : List Variable :=
  m.locals.toList.map .ofLocal ++ m.instructions.flatMap Instruction.variables ++
    m.signature.filterMap Operand.named?

/-- What keeps the names of a built method apart. Slots and the numbers of temporaries are numbers of
32 bits, so they tell apart as many variables as there are such numbers. -/
structure Method.Hygienic (m : Method) (d : Description.Method) : Prop where
  reserved : ∀ v, .ofLocal v ∈ m.variables → ['%'] <+: v.name.toList → v.name = blockName
  block : (∃ v ∈ m.locals.toList, v.name = blockName) ↔ .receiveBlock ∈ d.body
  slots : m.locals.names.length ≤ 2 ^ 32 → ∀ v ∈ m.locals.toList, ∀ w ∈ m.locals.toList,
    v.name = blockName → w.name ≠ blockName → v.slot ≠ w.slot
  temporaries : d.body.countP Description.Step.takesTemporary < 2 ^ 32 →
    ∀ (k : Nat) callee args, d.body[k]? = some (.call none callee args) → ∃ t operands,
      m.instructions[k]? = some (.call (.ofTemporary t) .self callee operands) ∧
      ∀ (j : Nat) i, j ≠ k → m.instructions[j]? = some i → .ofTemporary t ∉ i.variables
  apart : ∀ v, .ofLocal v ∈ m.variables → ∀ t : TemporaryVariable, v.name ≠ t.text
  text : ∀ v ∈ m.variables, ∀ w ∈ m.variables, v.text = w.text → v = w

theorem isReserved_blockName : isReserved blockName = true := by decide

/-- The texts of temporaries are numbers behind one and the same start. -/
theorem TemporaryVariable.text_inj {t u : TemporaryVariable} (h : t.text = u.text) : t = u := by
  have hdigits : Nat.toDigits 10 t.index.toNat = Nat.toDigits 10 u.index.toNat := by
    rw [← Nat.toList_repr, ← Nat.toList_repr]
    exact congrArg String.toList ((String.append_right_inj "%v_").1 h)
  have hindex := congrArg (fun ds => Nat.ofDigitChars 10 ds 0) hdigits
  simp only [Nat.ofDigitChars_ten_toDigits] at hindex
  exact congrArg mk (UInt32.toNat_inj.1 hindex)

theorem TemporaryVariable.toList_text (t : TemporaryVariable) :
    t.text.toList = ['%', 'v', '_'] ++ (toString t.index).toList := String.toList_append

theorem TemporaryVariable.isReserved_text (t : TemporaryVariable) : isReserved t.text = true := by
  rw [isReserved_iff, t.toList_text]
  exact List.prefix_append ['%'] _

theorem TemporaryVariable.text_ne_blockName (t : TemporaryVariable) : t.text ≠ blockName := by
  intro h
  have hlist := congrArg String.toList h
  rw [t.toList_text] at hlist
  cases hlist

namespace Description

variable {frame : List String} {s : Step} {temporary : UInt32} {v : Variable}

/-- An operand reads the variables of the names in its value. -/
theorem named?_operand {value : Value} (hv : (value.operand frame).named? = some v) :
    ∃ name ∈ value.names, v = variableIn frame name := by
  cases value with
  | fixnum n => cases hv
  | text s => cases hv
  | «variable» name =>
    cases hv
    exact ⟨name, List.mem_singleton_self name, rfl⟩

theorem named?_operand_getD {value : Option Value} (hv : (operand frame value).named? = some v) :
    ∃ name ∈ value.toList.flatMap Value.names, v = variableIn frame name := by
  cases value with
  | none => cases hv
  | some value => simpa using named?_operand hv

/-- No instruction of a body reads a temporary. -/
theorem Step.reads_instruction
    (hv : v ∈ (s.instruction frame temporary).operands.filterMap Operand.named?) :
    ∃ name ∈ s.names, v = variableIn frame name := by
  obtain ⟨x, hx, hv⟩ := List.mem_filterMap.1 hv
  cases s with
  | copy name value =>
    cases List.mem_singleton.1 hx
    obtain ⟨n, hn, rfl⟩ := named?_operand_getD hv
    exact ⟨n, List.mem_append_left _ hn, rfl⟩
  | giveBack value =>
    cases List.mem_singleton.1 hx
    exact named?_operand_getD hv
  | call result callee args =>
    rcases List.mem_cons.1 hx with rfl | hx
    · cases hv
    · obtain ⟨value, hvalue, rfl⟩ := List.mem_map.1 hx
      obtain ⟨n, hn, rfl⟩ := named?_operand hv
      exact ⟨n, List.mem_append_left _ (List.mem_flatMap.2 ⟨value, hvalue, hn⟩), rfl⟩
  | receive | receiveOptional | receiveKeyword | receivePost | receiveRest | receiveBlock
  | receiveSelf | line => cases hx

/-- An instruction writes the variable of a name, or the temporary that was meant for it. -/
theorem Step.writes_instruction (hv : (s.instruction frame temporary).result? = some v) :
    (∃ name ∈ s.names, v = variableIn frame name) ∨
      (s.takesTemporary = true ∧ v = .ofTemporary ⟨temporary⟩) := by
  cases s with
  | copy name value =>
    cases hv
    exact .inl ⟨name, List.mem_append_right _ (List.mem_singleton_self name), rfl⟩
  | call result callee args =>
    cases hv
    cases result with
    | none => exact .inr ⟨rfl, rfl⟩
    | some name =>
      exact .inl ⟨name, List.mem_append_right _ (List.mem_singleton_self name), rfl⟩
  | giveBack | line => cases hv
  | receiveBlock =>
    cases hv
    exact .inl ⟨blockName, List.mem_singleton_self _, rfl⟩
  | receive name | receiveOptional name | receiveKeyword name | receivePost name
  | receiveRest name | receiveSelf name =>
    cases hv
    exact .inl ⟨name, List.mem_singleton_self name, rfl⟩

theorem Step.variables_instruction (hv : v ∈ (s.instruction frame temporary).variables) :
    (∃ name ∈ s.names, v = variableIn frame name) ∨
      (s.takesTemporary = true ∧ v = .ofTemporary ⟨temporary⟩) := by
  rcases List.mem_append.1 hv with hv | hv
  · exact .inl (reads_instruction hv)
  · exact writes_instruction (Option.mem_toList.1 hv)

/-- A name that a step looks up is that of the block, or one that the source gives. -/
theorem Step.mem_names_iff {name : String} :
    name ∈ s.names ↔ (s = .receiveBlock ∧ name = blockName) ∨ name ∈ s.sourceNames := by
  cases s <;> simp [names, sourceNames]

end Description

namespace Method.Translates

variable {m : Method} {d : Description.Method} (h : m.Translates d)

include h

theorem mem_names_iff {name : String} : name ∈ m.locals.names ↔ ∃ s ∈ d.body, name ∈ s.names := by
  rw [h.names, List.mem_eraseDups, List.mem_flatMap]

/-- The variables in an instruction are those of names in the frame, but for its temporary. -/
theorem variables_cases {k : Nat} {i : Instruction} (hi : m.instructions[k]? = some i)
    {v : Variable} (hv : v ∈ i.variables) :
    (∃ name ∈ m.locals.names, v = variableIn m.locals.names name) ∨
      ∃ s, d.body[k]? = some s ∧ s.takesTemporary = true ∧
        v = .ofTemporary ⟨.ofNat ((d.body.take k).countP Description.Step.takesTemporary)⟩ := by
  rw [h.instructions, getElem?_mapBefore, Option.map_eq_some_iff] at hi
  obtain ⟨s, hs, rfl⟩ := hi
  rcases Description.Step.variables_instruction hv with ⟨name, hn, rfl⟩ | ⟨ht, rfl⟩
  · exact .inl ⟨name, h.mem_names_iff.2 ⟨s, List.mem_of_getElem? hs, hn⟩, rfl⟩
  · exact .inr ⟨s, hs, ht, rfl⟩

/-- Whatever occurs in the method is the variable of a name in the frame, or a temporary. -/
theorem mem_variables {v : Variable} (hv : v ∈ m.variables) :
    (∃ name ∈ m.locals.names, v = variableIn m.locals.names name) ∨ ∃ t, v = .ofTemporary t := by
  have hinstruction : ∀ i ∈ m.instructions, v ∈ i.variables →
      (∃ name ∈ m.locals.names, v = variableIn m.locals.names name) ∨ ∃ t, v = .ofTemporary t := by
    intro i hi hv
    obtain ⟨k, hk⟩ := List.mem_iff_getElem?.1 hi
    rcases h.variables_cases hk hv with hname | ⟨s, -, -, rfl⟩
    · exact .inl hname
    · exact .inr ⟨_, rfl⟩
  rcases List.mem_append.1 hv with hv | hv
  · rcases List.mem_append.1 hv with hv | hv
    · rw [VariableTable.toList_eq, List.map_map] at hv
      obtain ⟨name, hn, rfl⟩ := List.mem_map.1 hv
      exact .inl ⟨name, hn, rfl⟩
    · obtain ⟨i, hi, hv⟩ := List.mem_flatMap.1 hv
      exact hinstruction i hi hv
  · obtain ⟨entry, hentry, hv⟩ := List.mem_filterMap.1 hv
    rw [h.signature] at hentry
    obtain ⟨i, hi, hentry⟩ := List.mem_filterMap.1 hentry
    obtain ⟨-, w, hw, rfl⟩ := Instruction.signatureEntry?_eq_some_iff.1 hentry
    have hvw : w = v := by
      split at hv
      · exact Option.some.inj hv
      · exact Option.some.inj hv
    subst hvw
    exact hinstruction i hi (List.mem_append_right _ (Option.mem_toList.2 hw))

/-- If the source gives no reserved name, the block has the only one. -/
theorem eq_blockName (hd : d.offences = []) {name : String} (hn : name ∈ m.locals.names)
    (hr : isReserved name = true) : name = blockName ∧ .receiveBlock ∈ d.body := by
  obtain ⟨s, hs, hn⟩ := h.mem_names_iff.1 hn
  rcases Description.Step.mem_names_iff.1 hn with ⟨rfl, rfl⟩ | hsource
  · exact ⟨rfl, hs⟩
  · have hoffends : d.Offends := .inr ⟨s, hs, name, hsource, isReserved_iff.1 hr⟩
    exact absurd hd (Description.Method.offends_iff.1 hoffends)

theorem name_mem {v : LocalVariable} (hv : .ofLocal v ∈ m.variables) : v.name ∈ m.locals.names := by
  rcases h.mem_variables hv with ⟨name, hn, heq⟩ | ⟨t, heq⟩
  · cases heq
    exact hn
  · cases heq

theorem block_mem_iff (hd : d.offences = []) :
    (∃ v ∈ m.locals.toList, v.name = blockName) ↔ .receiveBlock ∈ d.body := by
  rw [VariableTable.toList_eq]
  constructor
  · rintro ⟨v, hv, hname⟩
    obtain ⟨name, hn, rfl⟩ := List.mem_map.1 hv
    obtain rfl : name = blockName := hname
    exact (h.eq_blockName hd hn isReserved_blockName).2
  · intro hblock
    have hn : blockName ∈ m.locals.names :=
      h.mem_names_iff.2 ⟨_, hblock, List.mem_singleton_self _⟩
    exact ⟨_, List.mem_map_of_mem hn, rfl⟩

/-- While there are slots, each variable of the frame has its own. -/
theorem slot_inj (hsize : m.locals.names.length ≤ 2 ^ 32) {v w : LocalVariable}
    (hv : v ∈ m.locals.toList) (hw : w ∈ m.locals.toList) (hslot : v.slot = w.slot) : v = w := by
  obtain ⟨i, hi⟩ := List.mem_iff_getElem?.1 hv
  obtain ⟨j, hj⟩ := List.mem_iff_getElem?.1 hw
  have hij : i = j := by
    rw [← h.slots hsize i v hi, ← h.slots hsize j w hj, hslot]
  subst hij
  exact Option.some.inj (hi.symm.trans hj)

/-- A call without a named result writes a temporary that occurs nowhere else, because the calls
before any two of them are not equally many. -/
theorem temporary_alone (hsize : d.body.countP Description.Step.takesTemporary < 2 ^ 32) {k : Nat}
    {callee : String} {args : List Description.Value}
    (hk : d.body[k]? = some (.call none callee args)) : ∃ t operands,
      m.instructions[k]? = some (.call (.ofTemporary t) .self callee operands) ∧
      ∀ (j : Nat) i, j ≠ k → m.instructions[j]? = some i → .ofTemporary t ∉ i.variables := by
  have hinstruction : m.instructions[k]? = some (.call
      (.ofTemporary ⟨.ofNat ((d.body.take k).countP Description.Step.takesTemporary)⟩) .self callee
      (args.map (Description.Value.operand m.locals.names))) := by
    rw [h.instructions, getElem?_mapBefore, hk]
    rfl
  refine ⟨_, _, hinstruction, fun j i hjk hi hmem => hjk ?_⟩
  rcases h.variables_cases hi hmem with ⟨name, -, heq⟩ | ⟨s, hs, ht, heq⟩
  · cases heq
  · have hbound : ∀ n, (d.body.take n).countP Description.Step.takesTemporary < 2 ^ 32 :=
      fun n => Nat.lt_of_le_of_lt (List.take_sublist n d.body).countP_le hsize
    have hcount := congrArg UInt32.toNat (TemporaryVariable.mk.inj (Variable.ofTemporary.inj heq))
    rw [UInt32.toNat_ofNat_of_lt' (hbound k), UInt32.toNat_ofNat_of_lt' (hbound j)] at hcount
    exact countP_take_inj hs ht hk rfl hcount.symm

theorem name_ne_text (hd : d.offences = []) {name : String} (hn : name ∈ m.locals.names)
    (t : TemporaryVariable) : name ≠ t.text := by
  rintro rfl
  exact t.text_ne_blockName (h.eq_blockName hd hn t.isReserved_text).1

theorem text_inj (hd : d.offences = []) {v w : Variable} (hv : v ∈ m.variables)
    (hw : w ∈ m.variables) (htext : v.text = w.text) : v = w := by
  rcases h.mem_variables hv with ⟨name, hn, rfl⟩ | ⟨t, rfl⟩
  · rcases h.mem_variables hw with ⟨name', hn', rfl⟩ | ⟨t', rfl⟩
    · obtain rfl : name = name' := htext
      rfl
    · exact absurd htext (h.name_ne_text hd hn t')
  · rcases h.mem_variables hw with ⟨name', hn', rfl⟩ | ⟨t', rfl⟩
    · exact absurd htext.symm (h.name_ne_text hd hn' t)
    · exact congrArg Variable.ofTemporary (TemporaryVariable.text_inj htext)

theorem hygienic (hd : d.offences = []) : m.Hygienic d where
  reserved _ hv hr := (h.eq_blockName hd (h.name_mem hv) (isReserved_iff.2 hr)).1
  block := h.block_mem_iff hd
  slots hsize _ hv _ hw hblock hne hslot := hne (h.slot_inj hsize hv hw hslot ▸ hblock)
  temporaries hsize _ _ _ hk := h.temporary_alone hsize hk
  apart _ hv := h.name_ne_text hd (h.name_mem hv)
  text _ hv _ hw := h.text_inj hd hv hw

end Method.Translates

namespace Description

variable {d : Description} {o : Options} {ids : List ScopeId} {a : Arena}

/-- In a unit that was built the names of every method are kept apart. The only reserved name in it is
that of the block, which is there just if the body receives the block and has a slot of its own; a
call without a named result writes a temporary that no other instruction has; and variables with the
same text are the same. Only the slot and the temporary need that there are numbers enough: at most
2 ^ 32 names, and fewer than 2 ^ 32 such calls. -/
theorem build_hygiene (h : d.build o = .ok (ids, a)) :
    (∀ (k : Nat) (dm : Method), d.methods[k]? = some dm →
      ∃ id m, ids[k]? = some id ∧ a.method? id = .ok m ∧ m.Hygienic dm) ∧
    ∀ m ∈ a.methods, ∃ (k : Nat) (dm : Method), d.methods[k]? = some dm ∧ m.Hygienic dm := by
  obtain ⟨hsize, hoff, rfl, rfl⟩ := build_eq_ok h
  have hhygienic : ∀ (k : Nat) (dm : Method), d.methods[k]? = some dm →
      (d.methodAt o k dm).Hygienic dm := by
    intro k dm hk
    have hnone := List.flatMap_eq_nil_iff.1 hoff dm (List.mem_of_getElem? hk)
    exact (Arena.translates_translated hnone _ _).hygienic hnone
  constructor
  · intro k dm hk
    have hlt := (List.getElem?_eq_some_iff.1 hk).1
    refine ⟨_, _, ?_, method?_arena hsize hk, hhygienic k dm hk⟩
    simp [Arena.nextScopeIds, scopes_root, hlt, Nat.add_comm]
  · intro m hm
    obtain ⟨k, dm, hk, rfl⟩ := mem_methods_arena.1 hm
    exact ⟨k, dm, hk, hhygienic k dm hk⟩

/-- The block between two calls without a named result, whose callees and texts have percent signs. -/
theorem build_hygiene_everyStep :
    ∃ ids a, (Description.mk "a.rb" [everyStep]).build .default = .ok (ids, a) ∧
      ∃ id m, ids[0]? = some id ∧ a.method? id = .ok m ∧ m.Hygienic everyStep ∧
        (∃ v ∈ m.locals.toList, v.name = blockName) ∧
        ∃ t operands, m.instructions[8]? = some (.call (.ofTemporary t) .self "puts" operands) ∧
          ∀ (j : Nat) i, j ≠ 8 → m.instructions[j]? = some i → .ofTemporary t ∉ i.variables := by
  have hbuilt : ∃ ids a, (Description.mk "a.rb" [everyStep]).build .default = .ok (ids, a) :=
    ⟨_, _, rfl⟩
  obtain ⟨ids, a, h⟩ := hbuilt
  obtain ⟨id, m, hid, hm, hygienic⟩ := (build_hygiene h).1 0 everyStep rfl
  refine ⟨ids, a, h, id, m, hid, hm, hygienic, hygienic.block.2 (by decide), ?_⟩
  exact hygienic.temporaries (by decide) 8 "puts" _ rfl

end Description

end MethodIR
