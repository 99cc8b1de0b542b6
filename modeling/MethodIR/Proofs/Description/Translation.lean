import MethodIR.Proofs.Description.Offence
import MethodIR.Proofs.Method.Record

/-!
What a described method stands for, said without a state that changes: its frame is the list of its
names, and each step of its body is one instruction over that whole frame. Building a method gives
just this, or the first offence.
-/
namespace MethodIR

/-- Maps each item along with the items before it. -/
def mapBefore {α β : Type} (f : List α → α → β) (l : List α) : List β :=
  l.mapIdx fun k x => f (l.take k) x

section mapBefore

variable {α β : Type} (f : List α → α → β)

@[simp] theorem mapBefore_nil : mapBefore f [] = [] := rfl

@[simp] theorem length_mapBefore (l : List α) : (mapBefore f l).length = l.length := by
  simp [mapBefore]

theorem getElem?_mapBefore (l : List α) (k : Nat) :
    (mapBefore f l)[k]? = l[k]?.map (f (l.take k)) := by
  simp [mapBefore]

theorem mem_mapBefore {y : β} {l : List α} :
    y ∈ mapBefore f l ↔ ∃ (k : Nat) (x : α), l[k]? = some x ∧ f (l.take k) x = y := by
  simp only [List.mem_iff_getElem?, getElem?_mapBefore, Option.map_eq_some_iff]

theorem mapBefore_cons (x : α) (l : List α) :
    mapBefore f (x :: l) = f [] x :: mapBefore (fun before => f (x :: before)) l := by
  simp [mapBefore, List.mapIdx_cons]

theorem mapBefore_concat (l : List α) (x : α) :
    mapBefore f (l ++ [x]) = mapBefore f l ++ [f l x] := by
  simp only [mapBefore, List.mapIdx_concat, List.take_left]
  congr 1
  refine List.mapIdx_eq_mapIdx_iff.2 fun k hk => ?_
  rw [List.take_append_of_le_length (Nat.le_of_lt hk)]

end mapBefore

namespace Description

/-- The variable of a name in a frame of these names: its slot is the place of the name. -/
def variableIn (frame : List String) (name : String) : Variable :=
  .ofLocal ⟨name, 0, .ofNat (frame.idxOf name)⟩

def Value.operand (frame : List String) : Value → Operand
  | .fixnum n => .fixnum n
  | .text s => .text s
  | .variable name => .variable (variableIn frame name)

/-- An operand that may be left out. -/
def operand (frame : List String) (value : Option Value) : Operand :=
  (value.map (Value.operand frame)).getD .nil

namespace Step

/-- All names that a step looks up, the one of the block among them. -/
def names : Step → List String
  | .receiveBlock => [blockName]
  | s => s.sourceNames

/-- A call whose result has no name writes a temporary. -/
def takesTemporary : Step → Bool
  | .call none _ _ => true
  | _ => false

/-- The instruction for a step in a frame of these names. -/
def instruction (frame : List String) (temporary : UInt32) : Step → Instruction
  | .receive name index => .receiveRequired (variableIn frame name) index
  | .receiveOptional name index least => .receiveOptional (variableIn frame name) index least
  | .receiveKeyword name => .receiveKeyword (variableIn frame name) name
  | .receivePost name index before => .receivePost (variableIn frame name) index before
  | .receiveRest name index => .receiveRest (variableIn frame name) index
  | .receiveBlock => .receiveBlock (variableIn frame blockName)
  | .receiveSelf name => .receiveSelf (variableIn frame name)
  | .copy name value => .copy (variableIn frame name) (operand frame value)
  | .call result callee args =>
    .call ((result.map (variableIn frame)).getD (.ofTemporary ⟨temporary⟩)) .self callee
      (args.map (Value.operand frame))
  | .giveBack value => .giveBack (operand frame value)
  | .line number => .line number

end Step

/-- The instructions for a body whose first temporary is `first`. -/
def instructionsFrom (frame : List String) (first : UInt32) (body : List Step) :
    List Instruction :=
  mapBefore (fun before s =>
    s.instruction frame (first + .ofNat (before.countP Step.takesTemporary))) body

/-- The parameter of a description, if its kind exists. -/
def Param.parameter? (p : Param) : Option Parameter :=
  (Parameter.Kind.ofSymbol? p.kind).map (⟨·, p.name⟩)

theorem ofNat_countP_cons (first : UInt32) (s : Step) (body : List Step) :
    first + .ofNat ((s :: body).countP Step.takesTemporary) =
      (first + if s.takesTemporary then 1 else 0) + .ofNat (body.countP Step.takesTemporary) := by
  rw [List.countP_cons, UInt32.ofNat_add, UInt32.add_comm (.ofNat _), UInt32.add_assoc]
  split <;> rfl

theorem instructionsFrom_cons (frame : List String) (first : UInt32) (s : Step)
    (body : List Step) : instructionsFrom frame first (s :: body) =
      s.instruction frame first ::
        instructionsFrom frame (first + if s.takesTemporary then 1 else 0) body := by
  simp only [instructionsFrom, mapBefore_cons, ofNat_countP_cons]
  simp

namespace Method

/-- The names in the order in which the body looks them up, with repetitions. -/
def names (d : Method) : List String := d.body.flatMap Step.names

/-- The names of all variables, each in its slot. -/
def frame (d : Method) : List String := d.names.eraseDups

/-- One instruction for each step; the temporaries are counted through the body. -/
def instructions (d : Method) : List Instruction :=
  mapBefore (fun before s =>
    s.instruction d.frame (.ofNat (before.countP Step.takesTemporary))) d.body

def parameters (d : Method) : List Parameter := d.params.filterMap Param.parameter?

end Method

/-! A longer frame gives the same variables. -/

section Frames

variable {frame frame' : List String}

theorem variableIn_of_longer (h : frame <+: frame') {name : String} (hn : name ∈ frame) :
    variableIn frame' name = variableIn frame name :=
  congrArg Variable.ofLocal (VariableTable.localIn_of_longer h hn)

theorem Value.operand_of_longer (h : frame <+: frame') {v : Value} (hv : v.names ⊆ frame) :
    v.operand frame' = v.operand frame := by
  cases v with
  | fixnum n => rfl
  | text s => rfl
  | «variable» name =>
    have hn : name ∈ frame := hv (by simp [names])
    exact congrArg Operand.variable (variableIn_of_longer h hn)

theorem operand_of_longer (h : frame <+: frame') {value : Option Value}
    (hv : value.toList.flatMap Value.names ⊆ frame) :
    operand frame' value = operand frame value := by
  cases value with
  | none => rfl
  | some v => exact Value.operand_of_longer h (by simpa using hv)

theorem operands_of_longer (h : frame <+: frame') {args : List Value}
    (ha : args.flatMap Value.names ⊆ frame) :
    args.map (Value.operand frame') = args.map (Value.operand frame) := by
  refine List.map_congr_left fun v hv => Value.operand_of_longer h fun name hn => ha ?_
  exact List.mem_flatMap.2 ⟨v, hv, hn⟩

theorem Step.instruction_of_longer (h : frame <+: frame') {s : Step} (hs : s.names ⊆ frame)
    (t : UInt32) : s.instruction frame' t = s.instruction frame t := by
  have hv : ∀ name ∈ s.names, variableIn frame' name = variableIn frame name :=
    fun name hn => variableIn_of_longer h (hs hn)
  cases s with
  | copy name value =>
    rw [instruction, instruction, hv name (by simp [names, sourceNames]), operand_of_longer h]
    exact fun n hn => hs (List.mem_append_left _ hn)
  | call result callee args =>
    have ha := operands_of_longer h fun n hn => hs (List.mem_append_left result.toList hn)
    cases result with
    | none => simp only [instruction, ha, Option.map_none]
    | some name =>
      simp only [instruction, ha, Option.map_some, hv name (by simp [names, sourceNames])]
  | giveBack value => rw [instruction, instruction, operand_of_longer h hs]
  | line number => rfl
  | receive name | receiveOptional name | receiveKeyword name | receivePost name
  | receiveRest name | receiveSelf name =>
    simp only [instruction, hv name (by simp [names, sourceNames])]
  | receiveBlock => simp only [instruction, hv blockName (by simp [names])]

end Frames

end Description

open Description (variableIn)

namespace Progress

variable (p : Progress)

def frame : List String := p.method.locals.names

/-- A method under construction after it was asked for some names. -/
def request (names : List String) : Progress := { p with method := p.method.record [] [] names }

@[simp] theorem request_method (names : List String) :
    (p.request names).method = p.method.record [] [] names := rfl

theorem frame_request (names : List String) :
    (p.request names).frame = (p.method.locals.requestAll names).names := rfl

@[simp] theorem request_nil : p.request [] = p := by simp [request]

@[simp] theorem request_request (ns ms : List String) :
    (p.request ns).request ms = p.request (ns ++ ms) := by simp [request]

theorem subset_frame_request (names : List String) : names ⊆ (p.request names).frame :=
  fun _ hn => VariableTable.mem_requestAll hn

theorem frame_request_append (ns ms : List String) :
    (p.request ns).frame <+: (p.request (ns ++ ms)).frame := by
  rw [← request_request]
  exact VariableTable.prefix_requestAll _ ms

theorem name_eq (name : String) : p.name name = (do
    refuse (reservedNames p.method.name [name])
    pure (variableIn (p.request [name]).frame name, p.request [name])) := by
  unfold Progress.name
  by_cases h : isReserved name = true
  · simp [reservedNames, h, bind, Except.bind]
  · rw [p.method.request_eq_record]
    simp [reservedNames, h]
    rfl

theorem block_eq : p.block =
    (variableIn (p.request [blockName]).frame blockName, p.request [blockName]) := by
  rw [Progress.block, p.method.block_eq_record]
  rfl

theorem operand_eq (value : Option Description.Value) : p.operand value = (do
    let names := value.toList.flatMap Description.Value.names
    refuse (reservedNames p.method.name names)
    pure (Description.operand (p.request names).frame value, p.request names)) := by
  rcases value with _ | v
  · simp [operand, Description.operand]
    rfl
  · cases v with
    | fixnum n =>
      simp [operand, Description.operand, Description.Value.names, Description.Value.operand]
      rfl
    | text s =>
      simp [operand, Description.operand, Description.Value.names, Description.Value.operand]
      rfl
    | «variable» name =>
      simp [operand, Description.operand, Description.Value.names, Description.Value.operand,
        name_eq]

theorem operands_eq (args : List Description.Value) : p.operands args = (do
    let names := args.flatMap Description.Value.names
    refuse (reservedNames p.method.name names)
    pure (args.map (Description.Value.operand (p.request names).frame), p.request names)) := by
  induction args generalizing p with
  | nil => simp [operands]; rfl
  | cons v args ih =>
    have hv : v.operand (p.request (v.names ++ args.flatMap Description.Value.names)).frame =
        v.operand (p.request v.names).frame :=
      Description.Value.operand_of_longer (p.frame_request_append _ _) (p.subset_frame_request _)
    simp only [operands, operand_eq, ih, bind_assoc, pure_bind]
    simp [refuse_append, Description.operand, hv]

/-- After the instruction of a step: its names are in the frame, its temporary is used up. -/
def advance (s : Description.Step) : Progress :=
  { p.request s.names with
    temporaries := p.temporaries + if s.takesTemporary then 1 else 0 }

theorem advance_of_named {s : Description.Step} (h : s.takesTemporary = false) :
    p.advance s = p.request s.names := by
  simp [advance, h, request]

theorem instruction_eq (s : Description.Step) : p.instruction s = (do
    refuse (s.offences p.method.name)
    pure (s.instruction (p.request s.names).frame p.temporaries, p.advance s)) := by
  cases s with
  | receive name | receiveOptional name | receiveKeyword name | receivePost name
  | receiveRest name | receiveSelf name =>
    rw [p.advance_of_named rfl]
    simp [instruction, name_eq, Description.Step.offences, Description.Step.sourceNames,
      Description.Step.names, Description.Step.instruction]
  | receiveBlock =>
    rw [p.advance_of_named rfl, instruction, block_eq]
    rfl
  | line number =>
    have hn : (Description.Step.line number).names = [] := rfl
    rw [p.advance_of_named rfl, hn, request_nil]
    rfl
  | giveBack value =>
    rw [p.advance_of_named rfl]
    simp [instruction, operand_eq, Description.Step.offences, Description.Step.sourceNames,
      Description.Step.names, Description.Step.instruction]
  | copy name value =>
    -- The value is resolved before the destination has its slot.
    have hv := Description.operand_of_longer (p.frame_request_append _ [name])
      (p.subset_frame_request (value.toList.flatMap Description.Value.names))
    rw [p.advance_of_named rfl]
    simp [instruction, operand_eq, name_eq, Description.Step.offences, refuse_append,
      Description.Step.sourceNames, Description.Step.names, Description.Step.instruction, ← hv]
  | call result callee args =>
    cases result with
    | none =>
      have hn : (Description.Step.call none callee args).sourceNames =
          args.flatMap Description.Value.names := List.append_nil _
      simp only [instruction, operands_eq, Progress.result, temporary, bind_assoc, pure_bind,
        Description.Step.offences, advance, Description.Step.names, hn]
      rfl
    | some name =>
      have ha := Description.operands_of_longer (p.frame_request_append _ [name])
        (p.subset_frame_request (args.flatMap Description.Value.names))
      rw [p.advance_of_named rfl]
      simp [instruction, operands_eq, Progress.result, name_eq, Description.Step.offences,
        refuse_append, Description.Step.sourceNames, Description.Step.names,
        Description.Step.instruction, ← ha]

theorem step_eq (s : Description.Step) : p.step s = (do
    refuse (s.offences p.method.name)
    pure { p.advance s with
      method := p.method.record [s.instruction (p.request s.names).frame p.temporaries] []
        s.names }) := by
  simp only [step, instruction_eq, bind_assoc, pure_bind, Method.append_eq_record, advance,
    request_method, Method.record_record, List.append_nil, List.nil_append]

theorem steps_cons (s : Description.Step) (body : List Description.Step) :
    (p.steps (s :: body)).mapError Failure.cause =
      (do let p' ← p.step s; (p'.steps body).mapError Failure.cause) := by
  rw [steps]
  cases p.step s <;> rfl

/-- A body becomes its instructions over the frame that it ends with. -/
theorem steps_eq (body : List Description.Step) :
    (p.steps body).mapError Failure.cause = (do
      refuse (body.flatMap (Description.Step.offences p.method.name))
      let names := body.flatMap Description.Step.names
      pure {
        method := p.method.record
          (Description.instructionsFrom (p.request names).frame p.temporaries body) [] names
        temporaries := p.temporaries + .ofNat (body.countP Description.Step.takesTemporary) }) := by
  induction body generalizing p with
  | nil => simp [steps, Except.mapError, Description.instructionsFrom]; rfl
  | cons s body ih =>
    have hi := Description.Step.instruction_of_longer
      (p.frame_request_append s.names (body.flatMap Description.Step.names))
      (p.subset_frame_request s.names) p.temporaries
    simp only [steps_cons, step_eq, bind_assoc, pure_bind, ih]
    simp only [List.flatMap_cons, refuse_append, bind_assoc, Method.record_name,
      Method.record_record, Description.ofNat_countP_cons, Description.instructionsFrom_cons, hi]
    simp only [frame_request, Method.record_locals, VariableTable.requestAll_append]
    rfl

end Progress

namespace Parameter.Kind

theorem ofSymbol?_eq_some_iff {symbol : String} {k : Kind} :
    ofSymbol? symbol = some k ↔ k.symbol = symbol := by
  constructor
  · intro h
    simpa using List.find?_some h
  · rintro rfl
    cases k <;> rfl

theorem ofSymbol?_eq_none_iff {symbol : String} :
    ofSymbol? symbol = none ↔ symbol ∉ Description.kindSymbols := by
  rw [ofSymbol?, List.find?_eq_none]
  simp [all, Description.kindSymbols, Kind.symbol, @eq_comm _ symbol]

end Parameter.Kind

/-- A kind that exists is that of a parameter. -/
theorem Description.Param.parameter?_of_mem {p : Description.Param}
    (h : p.kind ∈ Description.kindSymbols) :
    ∃ kind, p.parameter? = some ⟨kind, p.name⟩ ∧ kind.symbol = p.kind := by
  cases hk : Parameter.Kind.ofSymbol? p.kind with
  | none => exact absurd h (Parameter.Kind.ofSymbol?_eq_none_iff.1 hk)
  | some kind =>
    refine ⟨kind, ?_, Parameter.Kind.ofSymbol?_eq_some_iff.1 hk⟩
    rw [Description.Param.parameter?, hk]
    rfl

namespace Method

theorem declareAll_eq (m : Method) (params : List Description.Param) :
    (m.declareAll params).mapError Failure.cause = (do
      refuse (params.flatMap (Description.Param.offences m.name))
      pure (m.record [] (params.filterMap Description.Param.parameter?) [])) := by
  induction params generalizing m with
  | nil => simp [declareAll, Except.mapError]; rfl
  | cons p params ih =>
    rw [declareAll]
    by_cases hp : p.kind ∈ Description.kindSymbols
    · obtain ⟨kind, hkind, hsymbol⟩ := Description.Param.parameter?_of_mem hp
      simp only [Parameter.Kind.ofSymbol?_eq_some_iff.2 hsymbol, declare_eq_record, ih,
        record_name, record_record, List.flatMap_cons, Description.Param.offences, if_pos hp,
        List.nil_append, List.filterMap_cons_some hkind]
      rfl
    · have hk := Parameter.Kind.ofSymbol?_eq_none_iff.2 hp
      simp only [hk, List.flatMap_cons, Description.Param.offences, if_neg hp,
        List.singleton_append, refuse_cons]
      rfl

/-- Filling a method records what follows from its name, its variables and the description. -/
theorem fill_eq_record (m : Method) (d : Description.Method) : (m.fill d).mapError Failure.cause = (do
    refuse (d.params.flatMap (Description.Param.offences m.name))
    refuse (d.body.flatMap (Description.Step.offences m.name))
    pure (m.record
      (Description.instructionsFrom (m.locals.requestAll d.names).names 0 d.body)
      d.parameters d.names)) := by
  rw [fill, mapError_bind, declareAll_eq]
  simp only [mapError_bind, bind_assoc, pure_bind, Progress.steps_eq, Progress.frame_request,
    record_name, record_locals, record_record, VariableTable.requestAll_nil, List.append_nil]
  rfl

/-- Filling an empty method gives its translation, or the first offence. -/
theorem fill_eq {m : Method} {d : Description.Method} (hn : m.name = d.name)
    (hl : m.locals = .empty) : (m.fill d).mapError Failure.cause =
      (do refuse d.offences; pure (m.record d.instructions d.parameters d.names)) := by
  have hf : (m.locals.requestAll d.names).names = d.frame := by
    rw [hl]
    exact VariableTable.names_requestAll_empty d.names
  have hi : Description.instructionsFrom d.frame 0 d.body = d.instructions := by
    simp [Description.instructionsFrom, Description.Method.instructions]
  rw [fill_eq_record, hf, hi, hn, Description.Method.offences, refuse_append, bind_assoc]

end Method

end MethodIR
