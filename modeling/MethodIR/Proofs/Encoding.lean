import MethodIR.Instruction
import MethodIR.Proofs.Json.Forms

/-! Variables, operands and instructions are read back from the text that they are written as. -/
namespace MethodIR

open Json (Decoder depth membersDepth)
open Json.Fields (field done inverts_done inverts_required)
open Json.Decoder (inverts_text inverts_u32 inverts_i64 inverts_list reads_tagged reads_adjacent
  reads_adjacent_bare gives_of_tagged gives_of_adjacent)

theorem LocalVariable.inverts (levels : Nat) : LocalVariable.fields.Inverts levels fun r =>
    LocalVariable.members ⟨r.1, r.2.1, r.2.2.1⟩ := by
  have hslot := inverts_required "slot" (inverts_u32 levels) (inverts_done levels) (by simp)
  have hdepth := inverts_required "depth" (inverts_u32 levels) hslot (by simp)
  exact inverts_required "name" (inverts_text levels) hdepth (by simp)

theorem TemporaryVariable.inverts (levels : Nat) : TemporaryVariable.fields.Inverts levels fun r =>
    TemporaryVariable.members ⟨r.1⟩ :=
  inverts_required "index" (inverts_u32 levels) (inverts_done levels) (by simp)

theorem Variable.reads (v : Variable) (levels : Nat) :
    v.toJson.Readable ∧ Variable.decoder.Reads levels v.toJson v := by
  cases v with
  | ofLocal v =>
    exact reads_tagged "Variable" rfl
      (fun n => (LocalVariable.inverts n).reads (v.name, v.depth, v.slot, ())) rfl
      (by simp [LocalVariable.members])
  | ofTemporary v =>
    exact reads_tagged "Variable" rfl (fun n => (TemporaryVariable.inverts n).reads (v.index, ()))
      rfl (by simp [TemporaryVariable.members])

theorem Variable.inverts (levels : Nat) : Variable.decoder.Inverts levels Variable.toJson where
  readable v := (v.reads levels).1
  reads v := (v.reads levels).2
  bounded {stage d v} h := by
    obtain ⟨inner, rfl, -⟩ := gives_of_tagged h
    cases v <;> exact Nat.succ_le_succ (Nat.zero_le inner)

namespace Operand

/-- Each splat is one level deeper than what it takes apart. -/
theorem depth_splat (o : Operand) : (splat o).toJson.depth = o.toJson.depth + 1 := by
  simp [toJson, depth, membersDepth]

theorem depth_variable (v : Variable) : (Operand.variable v).toJson.depth = v.toJson.depth + 1 := by
  simp [toJson, depth, membersDepth]

theorem readable (o : Operand) : o.toJson.Readable := by
  induction o with
  | «variable» v => exact ⟨trivial, (Variable.inverts 0).readable v, trivial⟩
  | splat o ih => exact ⟨trivial, ih, trivial⟩
  | nil | self => exact ⟨trivial, trivial⟩
  | fixnum n => exact ⟨trivial, (inverts_i64 0).readable n, trivial⟩
  | text s => exact ⟨trivial, trivial, trivial⟩

theorem inverts (levels : Nat) : decoder.Inverts levels toJson := by
  apply Decoder.inverts_nested
  intro inner levels h
  refine ⟨readable, fun o => ?_, fun {stage d o} ho => ?_⟩
  · cases o with
    | «variable» v =>
      exact reads_adjacent "Operand" (by decide) rfl
        fun n _ => ((Variable.inverts n).reads v).map Operand.variable
    | splat o =>
      exact reads_adjacent "Operand" (by decide) rfl fun n hn => ((h n hn).reads o).map splat
    | nil => exact reads_adjacent_bare "Operand" "value" rfl rfl
    | fixnum i =>
      exact reads_adjacent "Operand" (by decide) rfl
        fun n _ => ((inverts_i64 n).reads i).map fixnum
    | text s =>
      exact reads_adjacent "Operand" (by decide) rfl
        fun n _ => ((inverts_text n).reads s).map text
    | self => exact reads_adjacent_bare "Operand" "value" rfl rfl
  · obtain ⟨n, rfl, m, hm, hgives⟩ := gives_of_adjacent ho
    simp only [List.mem_cons, List.not_mem_nil, or_false] at hm
    rcases hm with rfl | rfl | rfl | rfl | rfl | rfl
    · obtain ⟨stage, d, v, hv, rfl⟩ := hgives.content
      rw [depth_variable]
      exact Nat.succ_le_succ ((Variable.inverts n).bounded hv)
    · obtain ⟨stage, d, o, hinside, rfl⟩ := hgives.content
      rw [depth_splat]
      exact Nat.succ_le_succ ((h n rfl).bounded hinside)
    · rw [hgives.bare]
      exact Nat.succ_le_succ (Nat.zero_le n)
    · obtain ⟨stage, d, i, -, rfl⟩ := hgives.content
      exact Nat.succ_le_succ (Nat.zero_le n)
    · obtain ⟨stage, d, s, -, rfl⟩ := hgives.content
      exact Nat.succ_le_succ (Nat.zero_le n)
    · rw [hgives.bare]
      exact Nat.succ_le_succ (Nat.zero_le n)

end Operand

namespace Instruction

theorem inverts_result (levels : Nat) : (field resultField done).Inverts levels fun r =>
    [("result", r.1.toJson)] :=
  inverts_required "result" (Variable.inverts levels) (inverts_done levels) (by simp)

theorem inverts_index (levels : Nat) :
    (field resultField (field indexField done)).Inverts levels fun r =>
      [("result", r.1.toJson), ("index", .nat r.2.1.toNat)] := by
  have hindex := inverts_required "index" (inverts_u32 levels) (inverts_done levels) (by simp)
  exact inverts_required "result" (Variable.inverts levels) hindex (by simp)

theorem inverts_indexAnd {name : String} (hr : "result" ≠ name) (hi : "index" ≠ name)
    (levels : Nat) :
    (field resultField (field indexField
      (field (.required name Decoder.u32) done))).Inverts levels fun r =>
      [("result", r.1.toJson), ("index", .nat r.2.1.toNat), (name, .nat r.2.2.1.toNat)] := by
  have hlast := inverts_required name (inverts_u32 levels) (inverts_done levels) (by simp)
  have hindex := inverts_required "index" (inverts_u32 levels) hlast (by simp [hi])
  exact inverts_required "result" (Variable.inverts levels) hindex (by simp [hr])

theorem inverts_name (levels : Nat) :
    (field resultField (field (.required "name" Decoder.text) done)).Inverts levels fun r =>
      [("result", r.1.toJson), ("name", .text r.2.1)] := by
  have hname := inverts_required "name" (inverts_text levels) (inverts_done levels) (by simp)
  exact inverts_required "result" (Variable.inverts levels) hname (by simp)

theorem inverts_value (levels : Nat) :
    (field (.required "value" Operand.decoder) done).Inverts levels fun r =>
      [("value", r.1.toJson)] :=
  inverts_required "value" (Operand.inverts levels) (inverts_done levels) (by simp)

theorem inverts_copy (levels : Nat) :
    (field resultField (field (.required "value" Operand.decoder) done)).Inverts levels fun r =>
      [("result", r.1.toJson), ("value", r.2.1.toJson)] :=
  inverts_required "result" (Variable.inverts levels) (inverts_value levels) (by simp)

theorem inverts_call (levels : Nat) :
    (field resultField (field (.required "receiver" Operand.decoder)
      (field (.required "name" Decoder.text)
        (field (.required "args" (Decoder.list Operand.decoder)) done)))).Inverts levels fun r =>
      [("result", r.1.toJson), ("receiver", r.2.1.toJson), ("name", .text r.2.2.1),
        ("args", .list (r.2.2.2.1.map Operand.toJson))] := by
  have hargs := inverts_required "args" (inverts_list Operand.inverts levels) (inverts_done levels)
    (by simp)
  have hname := inverts_required "name" (inverts_text levels) hargs (by simp)
  have hreceiver := inverts_required "receiver" (Operand.inverts levels) hname (by simp)
  exact inverts_required "result" (Variable.inverts levels) hreceiver (by simp)

theorem inverts_line (levels : Nat) :
    (field (.required "line" Decoder.u32) done).Inverts levels fun r =>
      [("line", .nat r.1.toNat)] :=
  inverts_required "line" (inverts_u32 levels) (inverts_done levels) (by simp)

theorem reads (i : Instruction) (levels : Nat) :
    i.toJson.Readable ∧ decoder.Reads levels i.toJson i := by
  cases i with
  | receiveRequired v index | receiveRest v index =>
    exact reads_tagged "Instr" rfl (fun n => (inverts_index n).reads (v, index, ())) rfl (by simp)
  | receiveOptional v index least =>
    exact reads_tagged "Instr" rfl (fun n =>
      (inverts_indexAnd (by decide) (by decide) n).reads (v, index, least, ())) rfl (by simp)
  | receiveKeyword v name =>
    exact reads_tagged "Instr" rfl (fun n => (inverts_name n).reads (v, name, ())) rfl (by simp)
  | receivePost v index before =>
    exact reads_tagged "Instr" rfl (fun n =>
      (inverts_indexAnd (by decide) (by decide) n).reads (v, index, before, ())) rfl (by simp)
  | receiveBlock v | receiveSelf v =>
    exact reads_tagged "Instr" rfl (fun n => (inverts_result n).reads (v, ())) rfl (by simp)
  | copy v value =>
    exact reads_tagged "Instr" rfl (fun n => (inverts_copy n).reads (v, value, ())) rfl (by simp)
  | call v receiver name args =>
    exact reads_tagged "Instr" rfl (fun n => (inverts_call n).reads (v, receiver, name, args, ()))
      rfl (by simp)
  | giveBack value =>
    exact reads_tagged "Instr" rfl (fun n => (inverts_value n).reads (value, ())) rfl (by simp)
  | line number =>
    exact reads_tagged "Instr" rfl (fun n => (inverts_line n).reads (number, ())) rfl (by simp)

theorem bounded {stage : Json.Stage} {levels : Nat} {d : Json.Document} {i : Instruction}
    (h : decoder stage levels d = .ok i) : i.toJson.depth ≤ levels := by
  obtain ⟨n, rfl, m, hm, hgives⟩ := gives_of_tagged h
  simp only [List.mem_cons, List.not_mem_nil, or_false] at hm
  rcases hm with rfl | rfl | rfl | rfl | rfl | rfl | rfl | rfl | rfl | rfl | rfl
  · exact hgives.depth_le (inverts_index n) fun _ => rfl
  · exact hgives.depth_le (inverts_indexAnd (by decide) (by decide) n) fun _ => rfl
  · exact hgives.depth_le (inverts_name n) fun _ => rfl
  · exact hgives.depth_le (inverts_indexAnd (by decide) (by decide) n) fun _ => rfl
  · exact hgives.depth_le (inverts_index n) fun _ => rfl
  · exact hgives.depth_le (inverts_result n) fun _ => rfl
  · exact hgives.depth_le (inverts_result n) fun _ => rfl
  · exact hgives.depth_le (inverts_copy n) fun _ => rfl
  · exact hgives.depth_le (inverts_call n) fun _ => rfl
  · exact hgives.depth_le (inverts_value n) fun _ => rfl
  · exact hgives.depth_le (inverts_line n) fun _ => rfl

theorem inverts (levels : Nat) : decoder.Inverts levels toJson where
  readable i := (i.reads levels).1
  reads i := (i.reads levels).2
  bounded := bounded

end Instruction

open Json (decode) in
/-- An operand or an instruction is decoded from its text if no more than 127 lists and objects
contain one another in it, and else is too deep; and whatever text one was decoded from, its own
text is not too deep and gives it again. -/
theorem decode_encoded :
    (∀ o : Operand, decode Operand.decoder o.toJson.render =
      if o.toJson.depth ≤ 127 then .ok o else .error (.fault .tooDeep)) ∧
    (∀ i : Instruction, decode Instruction.decoder i.toJson.render =
      if i.toJson.depth ≤ 127 then .ok i else .error (.fault .tooDeep)) ∧
    (∀ s o, decode Operand.decoder s = .ok o →
      o.toJson.depth ≤ 127 ∧ decode Operand.decoder o.toJson.render = .ok o) ∧
    (∀ s i, decode Instruction.decoder s = .ok i →
      i.toJson.depth ≤ 127 ∧ decode Instruction.decoder i.toJson.render = .ok i) ∧
    (Json.Error.fault .tooDeep).message = "recursion limit exceeded" := by
  have hoperand := Operand.inverts Json.levelLimit
  have hinstruction := Instruction.inverts Json.levelLimit
  exact ⟨hoperand.decode_render, hinstruction.decode_render, fun _ _ => hoperand.decode_again,
    fun _ _ => hinstruction.decode_again, rfl⟩

/-- `n` splats around nil. -/
def nestedSplat (n : Nat) : Operand := Nat.repeat .splat n .nil

theorem depth_nestedSplat (n : Nat) : (nestedSplat n).toJson.depth = n + 1 := by
  induction n with
  | zero => rfl
  | succ n ih => rw [nestedSplat, Nat.repeat, Operand.depth_splat, ← ih, nestedSplat]

open Json (decode) in
/-- The last number of splats that is decoded, here from the text on several lines, and the first
that is not; in an instruction both are one less. -/
theorem decode_encoded_nestedSplat :
    decode Operand.decoder (nestedSplat 126).toJson.pretty = .ok (nestedSplat 126) ∧
    decode Operand.decoder (nestedSplat 126).toJson.render = .ok (nestedSplat 126) ∧
    decode Operand.decoder (nestedSplat 127).toJson.render = .error (.fault .tooDeep) ∧
    decode Instruction.decoder (Instruction.giveBack (nestedSplat 125)).toJson.render =
      .ok (.giveBack (nestedSplat 125)) ∧
    decode Instruction.decoder (Instruction.giveBack (nestedSplat 126)).toJson.render =
      .error (.fault .tooDeep) := by
  obtain ⟨hoperand, hinstruction, hagain, hagain', -⟩ := decode_encoded
  have hdepth : ∀ n, (Instruction.giveBack (nestedSplat n)).toJson.depth = n + 2 := by
    intro n
    simp [Instruction.toJson, depth, membersDepth, depth_nestedSplat]
  have hpretty : decode Operand.decoder (nestedSplat 126).toJson.pretty =
      .ok (nestedSplat 126) := by
    have hreadable := (Operand.inverts 127).readable (nestedSplat 126)
    have hlayouts := Json.decode_layouts hreadable Operand.decoder
    rw [hlayouts.2, ← hlayouts.1, hoperand, depth_nestedSplat, if_pos (by decide)]
  have hread : decode Instruction.decoder (Instruction.giveBack (nestedSplat 125)).toJson.render =
      .ok (.giveBack (nestedSplat 125)) := by
    rw [hinstruction, hdepth, if_pos (by decide)]
  refine ⟨hpretty, (hagain _ _ hpretty).2, ?_, (hagain' _ _ hread).2, ?_⟩
  · rw [hoperand, depth_nestedSplat, if_neg (by decide)]
  · rw [hinstruction, hdepth, if_neg (by decide)]

end MethodIR
