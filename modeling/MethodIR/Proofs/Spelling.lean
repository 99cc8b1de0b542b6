import MethodIR.Proofs.Encoding
import MethodIR.Proofs.Json.Adjacent

/-!
What may be written for variables, operands and instructions, and that it is all read as the value it
is written for. Variables and instructions are read whole, an operand part by part; but its content is
read whole if it stands before its kind, and all that is inside with it.
-/
namespace MethodIR

open Json (Alternative Decoder RecordField Fields Variant FieldSpelling Kept Written SpelledList
  SpelledRecord SpelledAdjacent SpelledBare Valid Readable decode)
open Json.Decoder (inverts_text inverts_u32 inverts_i64 accepts_written accepts_list accepts_tagged
  adjacent_spelled adjacent_spelledBare)
open Json.RecordField (accepts_required)
open Json.FieldSpelling (required)

variable {beside inside : Json → Prop} {j : Json}

theorem accepts_counted (name : String) (n : UInt32) :
    (RecordField.required name Decoder.u32).Accepts Json.Literal.Readable
      (required name (Written Json.u32 n)) n :=
  accepts_required name (accepts_written inverts_u32 n)

theorem accepts_named (name s : String) :
    (RecordField.required name Decoder.text).Accepts Json.Literal.Readable
      (required name (Written .text s)) s :=
  accepts_required name (accepts_written inverts_text s)

namespace Variable

def tag : Variable → String
  | .ofLocal _ => "local"
  | .ofTemporary _ => "temporary"

/-- The fields of a variable in their order. -/
def spellings : Variable → List FieldSpelling
  | .ofLocal v =>
    [required "name" (Written .text v.name), required "depth" (Written Json.u32 v.depth),
      required "slot" (Written Json.u32 v.slot)]
  | .ofTemporary v => [required "index" (Written Json.u32 v.index)]

/-- The kind is a member of an object, or the first item of a list; `inside` holds of what other
members hold. -/
def Spelled (inside : Json → Prop) (v : Variable) : Json → Prop :=
  SpelledRecord inside (required "kind" (Written .text v.tag) :: v.spellings)

theorem spelled_toJson (inside : Json → Prop) (v : Variable) : v.Spelled inside v.toJson := by
  cases v with
  | ofLocal v => exact Kept.spelledRecord (.keep rfl (.keep rfl (.keep rfl (.keep rfl .nil))))
  | ofTemporary v => exact Kept.spelledRecord (.keep rfl (.keep rfl .nil))

theorem kind_fresh (v : Variable) : ∀ f ∈ v.spellings, "kind" ≠ f.name := by
  cases v <;> simp [spellings]

theorem accepts (v : Variable) : decoder.Accepts Json.Literal.Readable (v.Spelled Readable) v := by
  have hfresh := v.kind_fresh
  cases v with
  | ofLocal v =>
    have hslot := Fields.Accepts.field (accepts_counted "slot" v.slot) (by simp) .done
    have hdepth := Fields.Accepts.field (accepts_counted "depth" v.depth) (by simp) hslot
    have hfields := Fields.Accepts.field (accepts_named "name" v.name) (by simp) hdepth
    exact accepts_tagged "Variable" rfl (Variant.accepts_record _ hfields _) hfresh
      fun _ h => h
  | ofTemporary v =>
    have hfields := Fields.Accepts.field (accepts_counted "index" v.index) (by simp) .done
    exact accepts_tagged "Variable" rfl (Variant.accepts_record _ hfields _) hfresh
      fun _ h => h

end Variable

namespace Operand

/-- What may be written for an operand that is read part by part: `beside` holds of what other
members hold, and `inside` of that in what is read whole. -/
def Spelled (inside : Json → Prop) : (beside : Json → Prop) → Operand → Json → Prop
  | beside, .variable v =>
    SpelledAdjacent beside "kind" "value" "variable" (v.Spelled inside) (v.Spelled inside)
  | beside, .splat inner =>
    SpelledAdjacent beside "kind" "value" "splat" (inner.Spelled inside beside)
      (inner.Spelled inside inside)
  | beside, .nil => SpelledBare beside "kind" "value" "nil"
  | beside, .fixnum n =>
    SpelledAdjacent beside "kind" "value" "fixnum" (Written Json.i64 n) (Written Json.i64 n)
  | beside, .text s =>
    SpelledAdjacent beside "kind" "value" "str" (Written .text s) (Written .text s)
  | beside, .self => SpelledBare beside "kind" "value" "self_value"

theorem spelled_toJson (inside beside : Json → Prop) (x : Operand) :
    x.Spelled inside beside x.toJson := by
  have hcontent : ∀ {direct whole : Json → Prop} {name : String} {c : Json}, direct c →
      SpelledAdjacent beside "kind" "value" name direct whole
        (.object ([] ++ ("kind", .text name) :: ([] ++ ("value", c) :: []))) :=
    fun h => .tagFirst h fun m hm => nomatch hm
  have hbare : ∀ {name : String},
      SpelledBare beside "kind" "value" name (.object ([] ++ ("kind", .text name) :: [])) :=
    .alone fun m hm => nomatch hm
  induction x with
  | «variable» v => exact hcontent (v.spelled_toJson inside)
  | splat inner ih => exact hcontent ih
  | nil | self => exact hbare
  | fixnum | text => exact hcontent rfl

/-- The forms of an operand, whose inner operand is read by `inner`. -/
def forms (inner : Decoder Operand) : List (String × Alternative Operand) :=
  [("variable", .content Variable.decoder .variable), ("splat", .content inner .splat),
    ("nil", .bare "unit variant Operand::Nil" .nil), ("fixnum", .content Decoder.i64 .fixnum),
    ("str", .content Decoder.text .text),
    ("self_value", .bare "unit variant Operand::SelfValue" .self)]

variable {p : Json.Literal → Prop} {name : String}

/-- An operand is read one level further in than it stands. -/
theorem reads_of_forms {x : Operand} {spelled : Json → Prop} (hpos : ∀ {j}, spelled j → 0 < j.depth)
    (hnumbers : ∀ {j}, spelled j → j.Numbers p)
    (h : ∀ {j}, spelled j → ∀ stage (n : Nat), j.depth ≤ n + 1 → ∀ inner : Decoder Operand,
      (∀ stage d, inner stage n d = decoder stage n d) →
      Decoder.adjacent "Operand" "kind" "value" (forms inner) stage (n + 1) (.ofJson j) = .ok x) :
    decoder.Accepts p spelled x where
  numbers := hnumbers
  reads hj stage levels hdepth := by
    obtain ⟨n, rfl⟩ := Nat.exists_eq_add_of_le' (Nat.le_trans (hpos hj) hdepth)
    exact h hj stage n hdepth _ fun _ _ => rfl

theorem accepts_content {β : Type} {content : Decoder β} {make : β → Operand} {b : β}
    {spelled : Json → Prop} (hbeside : ∀ j, beside j → j.Numbers p)
    (hp : ∀ l : Json.Literal, l.Readable → p l)
    (hcontent : content.Accepts Json.Literal.Readable spelled b)
    (hform : ∀ inner, (forms inner).lookup name = some (.content content make)) :
    decoder.Accepts p (SpelledAdjacent beside "kind" "value" name spelled spelled) (make b) := by
  have hnumbers : ∀ c, spelled c → c.Numbers p := fun c hc => (hcontent.numbers hc).mono hp
  refine reads_of_forms (fun h => h.depth_pos) (fun h => h.numbers hbeside hnumbers hnumbers) ?_
  intro j hj stage n hdepth inner _
  have hread : ∀ c stage, spelled c → c.depth ≤ n →
      (content.map make) stage n (.ofJson c) = .ok (make b) :=
    fun c stage hc hdepth => (hcontent.map make).reads hc stage hdepth
  refine adjacent_spelled "Operand" (by decide) (hform inner) hj ?_ ?_ hdepth
  · intro c hc hdepth
    exact hread c stage hc hdepth
  · intro c hc
    exact ⟨hcontent.numbers hc, hread c .whole hc⟩

theorem accepts_bare {wanted : String} {x : Operand} (hbeside : ∀ j, beside j → j.Numbers p)
    (hform : ∀ inner, (forms inner).lookup name = some (.bare wanted x)) :
    decoder.Accepts p (SpelledBare beside "kind" "value" name) x := by
  refine reads_of_forms (fun h => h.depth_pos) (fun h => h.numbers hbeside) ?_
  intro j hj stage n hdepth inner _
  exact adjacent_spelledBare "Operand" (by decide) (hform inner) hj hdepth

/-- By induction on the operand, both for what is read part by part and for what is read whole. -/
theorem accepts (x : Operand) (hbeside : ∀ j, beside j → j.Numbers p)
    (hp : ∀ l : Json.Literal, l.Readable → p l) :
    decoder.Accepts p (x.Spelled Readable beside) x := by
  induction x generalizing beside p with
  | «variable» v => exact accepts_content hbeside hp v.accepts fun _ => rfl
  | nil => exact accepts_bare hbeside fun _ => rfl
  | fixnum n => exact accepts_content hbeside hp (accepts_written inverts_i64 n) fun _ => rfl
  | text s => exact accepts_content hbeside hp (accepts_written inverts_text s) fun _ => rfl
  | self => exact accepts_bare hbeside fun _ => rfl
  | splat x ih =>
    have hdirect := ih hbeside hp
    have hwhole : decoder.Accepts Json.Literal.Readable (x.Spelled Readable Readable) x :=
      ih (fun _ h => h) fun _ h => h
    refine reads_of_forms (fun h => h.depth_pos) (fun h => h.numbers hbeside
      (fun c hc => hdirect.numbers hc) fun c hc => (hwhole.numbers hc).mono hp) ?_
    intro j hj stage n hdepth inner hinner
    refine adjacent_spelled "Operand" (by decide) rfl hj ?_ ?_ hdepth
    · intro c hc hdepth
      change (inner stage n (.ofJson c)).map splat = _
      rw [hinner, hdirect.reads hc stage hdepth]
      rfl
    · intro c hc
      refine ⟨hwhole.numbers hc, fun hdepth => ?_⟩
      change (inner .whole n (.ofJson c)).map splat = _
      rw [hinner, hwhole.reads hc .whole hdepth]
      rfl

/-- An operand that is read whole. -/
theorem accepts_whole (x : Operand) :
    decoder.Accepts Json.Literal.Readable (x.Spelled Readable Readable) x :=
  x.accepts (fun _ h => h) fun _ h => h

end Operand

namespace Instruction

def tag : Instruction → String
  | .receiveRequired .. => "receive_pre_reqd_arg"
  | .receiveOptional .. => "receive_opt_arg"
  | .receiveKeyword .. => "receive_keyword_arg"
  | .receivePost .. => "receive_post_reqd_arg"
  | .receiveRest .. => "receive_rest_arg"
  | .receiveBlock _ => "receive_closure"
  | .receiveSelf _ => "receive_self"
  | .copy .. => "copy"
  | .call .. => "call"
  | .giveBack _ => "return"
  | .line _ => "line_number"

/-- The fields of an instruction in their order. -/
def spellings (inside : Json → Prop) : Instruction → List FieldSpelling
  | .receiveRequired v index | .receiveRest v index =>
    [required "result" (v.Spelled inside), required "index" (Written Json.u32 index)]
  | .receiveOptional v index least =>
    [required "result" (v.Spelled inside), required "index" (Written Json.u32 index),
      required "min_args" (Written Json.u32 least)]
  | .receiveKeyword v name =>
    [required "result" (v.Spelled inside), required "name" (Written .text name)]
  | .receivePost v index before =>
    [required "result" (v.Spelled inside), required "index" (Written Json.u32 index),
      required "pre_count" (Written Json.u32 before)]
  | .receiveBlock v | .receiveSelf v => [required "result" (v.Spelled inside)]
  | .copy v value =>
    [required "result" (v.Spelled inside), required "value" (value.Spelled inside inside)]
  | .call v receiver name args =>
    [required "result" (v.Spelled inside), required "receiver" (receiver.Spelled inside inside),
      required "name" (Written .text name),
      required "args" (SpelledList (Operand.Spelled inside inside) args)]
  | .giveBack value => [required "value" (value.Spelled inside inside)]
  | .line number => [required "line" (Written Json.u32 number)]

/-- What may be written for an instruction; `inside` holds of what members hold that are no fields,
its own and those of its variables and operands. -/
def Spelled (inside : Json → Prop) (i : Instruction) : Json → Prop :=
  SpelledRecord inside (required "op" (Written .text i.tag) :: i.spellings inside)

theorem spelled_toJson (inside : Json → Prop) (i : Instruction) : i.Spelled inside i.toJson := by
  have hresult := Variable.spelled_toJson inside
  have hvalue := Operand.spelled_toJson inside inside
  have hargs := Json.spelledList_map hvalue
  cases i with
  | receiveRequired v | receiveRest v | receiveKeyword v =>
    exact Kept.spelledRecord (.keep rfl (.keep (hresult v) (.keep rfl .nil)))
  | receiveOptional v | receivePost v =>
    exact Kept.spelledRecord (.keep rfl (.keep (hresult v) (.keep rfl (.keep rfl .nil))))
  | receiveBlock v | receiveSelf v => exact Kept.spelledRecord (.keep rfl (.keep (hresult v) .nil))
  | copy v value =>
    exact Kept.spelledRecord (.keep rfl (.keep (hresult v) (.keep (hvalue value) .nil)))
  | call v receiver name args =>
    exact Kept.spelledRecord (.keep rfl (.keep (hresult v) (.keep (hvalue receiver) (.keep rfl
      (.keep (hargs args) .nil)))))
  | giveBack value => exact Kept.spelledRecord (.keep rfl (.keep (hvalue value) .nil))
  | line number => exact Kept.spelledRecord (.keep rfl (.keep rfl .nil))

theorem op_fresh (i : Instruction) : ∀ f ∈ i.spellings inside, "op" ≠ f.name := by
  cases i <;> simp [spellings]

theorem accepts_result (v : Variable) : resultField.Accepts Json.Literal.Readable
    (required "result" (v.Spelled Readable)) v :=
  accepts_required "result" v.accepts

theorem accepts_value (x : Operand) :
    (RecordField.required "value" Operand.decoder).Accepts Json.Literal.Readable
      (required "value" (x.Spelled Readable Readable)) x :=
  accepts_required "value" x.accepts_whole

theorem accepts_only {α : Type} {field : RecordField α} {f : FieldSpelling} {a : α}
    (h : field.Accepts Json.Literal.Readable f a) :
    (Fields.field field .done).Accepts Json.Literal.Readable [f] (a, ()) :=
  .field h (by simp) .done

theorem accepts_indexAnd {last : String} (hresult : "result" ≠ last) (hindex : "index" ≠ last)
    (v : Variable) (index n : UInt32) :
    (Fields.field resultField (.field indexField
      (.field (.required last Decoder.u32) .done))).Accepts Json.Literal.Readable
      [required "result" (v.Spelled Readable),
        required "index" (Written Json.u32 index),
        required last (Written Json.u32 n)]
      (v, index, n, ()) := by
  have hlast := accepts_only (accepts_counted last n)
  have hrest := Fields.Accepts.field (accepts_counted "index" index) (by simp [hindex]) hlast
  exact .field (accepts_result v) (by simp [hresult]) hrest

theorem accepts (i : Instruction) :
    decoder.Accepts Json.Literal.Readable (i.Spelled Readable) i := by
  have hfresh : ∀ f ∈ i.spellings Readable, "op" ≠ f.name := i.op_fresh
  have hextra : ∀ j, Readable j → j.Readable := fun _ h => h
  cases i with
  | receiveRequired v index | receiveRest v index =>
    have hindex := accepts_only (accepts_counted "index" index)
    exact accepts_tagged "Instr" rfl
      (Variant.accepts_record _ (.field (accepts_result v) (by simp) hindex) _) hfresh hextra
  | receiveOptional v index n | receivePost v index n =>
    exact accepts_tagged "Instr" rfl (Variant.accepts_record _
      (accepts_indexAnd (by decide) (by decide) v index n) _) hfresh hextra
  | receiveKeyword v name =>
    have hname := accepts_only (accepts_named "name" name)
    exact accepts_tagged "Instr" rfl
      (Variant.accepts_record _ (.field (accepts_result v) (by simp) hname) _) hfresh hextra
  | receiveBlock v | receiveSelf v =>
    exact accepts_tagged "Instr" rfl
      (Variant.accepts_record _ (accepts_only (accepts_result v)) _) hfresh hextra
  | copy v x =>
    have hvalue := accepts_only (accepts_value x)
    exact accepts_tagged "Instr" rfl
      (Variant.accepts_record _ (.field (accepts_result v) (by simp) hvalue) _) hfresh hextra
  | call v x name args =>
    have hargs := accepts_only (accepts_required "args" (accepts_list Operand.accepts_whole args))
    have hname := Fields.Accepts.field (accepts_named "name" name) (by simp) hargs
    have hreceiver := Fields.Accepts.field (accepts_required "receiver" x.accepts_whole) (by simp)
      hname
    exact accepts_tagged "Instr" rfl
      (Variant.accepts_record _ (.field (accepts_result v) (by simp) hreceiver) _) hfresh hextra
  | giveBack x =>
    exact accepts_tagged "Instr" rfl (Variant.accepts_record _ (accepts_only (accepts_value x)) _)
      hfresh hextra
  | line n =>
    exact accepts_tagged "Instr" rfl
      (Variant.accepts_record _ (accepts_only (accepts_counted "line" n)) _) hfresh hextra

end Instruction

/-- Every text of every spelling of an operand or of an instruction is decoded as that value, if no
more than 127 lists and objects contain one another in it; and what they are written as is one of
their spellings. -/
theorem decode_every_spelling :
    (∀ x : Operand, x.Spelled Readable Valid x.toJson ∧
      ∀ j, x.Spelled Readable Valid j → j.depth ≤ 127 →
        (∀ s ∈ j.layouts, j.IsText s) ∧ ∀ s, j.IsText s → decode Operand.decoder s = .ok x) ∧
    ∀ i : Instruction, i.Spelled Readable i.toJson ∧
      ∀ j, i.Spelled Readable j → j.depth ≤ 127 →
        (∀ s ∈ j.layouts, j.IsText s) ∧ ∀ s, j.IsText s → decode Instruction.decoder s = .ok i := by
  constructor
  · intro x
    have haccepts : Operand.decoder.Accepts Json.Literal.WellFormed (x.Spelled Readable Valid) x :=
      x.accepts (fun _ h => h) fun _ h => h.1
    refine ⟨x.spelled_toJson Readable Valid, fun j hj hdepth => ⟨?_, ?_⟩⟩
    · intro s hs
      exact Json.isText_of_mem_layouts (haccepts.numbers hj) hs
    · intro s hs
      rw [Json.decode_of_isText hs]
      exact haccepts.reads hj .streamed hdepth
  · intro i
    refine ⟨i.spelled_toJson Readable, fun j hj hdepth => ⟨?_, ?_⟩⟩
    · intro s hs
      exact Json.isText_of_mem_layouts (Json.Readable.valid (i.accepts.numbers hj)) hs
    · intro s hs
      rw [Json.decode_of_isText hs]
      exact i.accepts.reads hj .streamed hdepth

/-- The content before the kind, lists, nulls and other members; a number beside an operand may be too
large for any reader. -/
theorem decode_every_spelling_reversed :
    let v : Variable := .ofLocal ⟨"a", 1, 2⟩
    let huge : Json := .number ⟨false, 1, [], some 400⟩
    let listed : Json := .list [.text "local", .text "a", .nat 1, .nat 2]
    let x : Operand := .splat (.variable v)
    let j : Json := .object [("note", huge), ("value", .list [.text "variable", listed]),
      ("kind", .text "splat")]
    let i : Instruction := .call (.ofTemporary ⟨0⟩) .self "puts" [.nil, .variable v]
    let j' : Json := .object [
      ("args", .list [.list [.text "nil", .null],
        .object [("value", listed), ("note", .null), ("kind", .text "variable")]]),
      ("name", .text "puts"), ("receiver", .object [("value", .null), ("kind", .text "self_value")]),
      ("result", .list [.text "temporary", .nat 0]), ("op", .text "call")]
    x.Spelled Readable Valid j ∧ j.depth ≤ 127 ∧ decode Operand.decoder j.pretty = .ok x ∧
      i.Spelled Readable j' ∧ j'.depth ≤ 127 ∧ decode Instruction.decoder j'.render = .ok i := by
  intro v huge listed x j i j'
  have hv : v.Spelled Readable listed :=
    .inr ⟨_, rfl, .item rfl (.item rfl (.item rfl (.item rfl (.cut (by simp)))))⟩
  have hx : x.Spelled Readable Valid j := by
    have hfirst : x.Spelled Readable Valid (.object ([("note", huge)] ++
        ("value", .list [.text "variable", listed]) :: ([] ++ ("kind", .text "splat") :: []))) :=
      .contentFirst (.list hv) (by simp [Json.IsOther, huge, Json.Numbers, Json.Literal.WellFormed])
    exact hfirst
  have hnil : Operand.nil.Spelled Readable Readable (.list [.text "nil", .null]) :=
    .null (.list rfl)
  have hvariable : (Operand.variable v).Spelled Readable Readable
      (.object [("value", listed), ("note", .null), ("kind", .text "variable")]) := by
    have hfirst : (Operand.variable v).Spelled Readable Readable (.object ([] ++
        ("value", listed) :: ([("note", .null)] ++ ("kind", .text "variable") :: []))) :=
      .contentFirst hv (by simp [Json.IsOther, Json.Numbers])
    exact hfirst
  have hself : Operand.self.Spelled Readable Readable
      (.object [("value", .null), ("kind", .text "self_value")]) := by
    have hfirst : Operand.self.Spelled Readable Readable
        (.object ([] ++ ("value", .null) :: ([] ++ ("kind", .text "self_value") :: []))) :=
      .null (.contentFirst rfl fun m hm => nomatch hm)
    exact hfirst
  have htemporary : (Variable.ofTemporary ⟨0⟩).Spelled Readable
      (.list [.text "temporary", .nat 0]) :=
    .inr ⟨_, rfl, .item rfl (.item rfl (.cut (by simp)))⟩
  have hargs : SpelledList (Operand.Spelled Readable Readable) [.nil, .variable v] (.list _) :=
    ⟨_, rfl, .cons hnil (.cons hvariable .nil)⟩
  have hi : i.Spelled Readable j' :=
    .inl (Kept.spelledObject_of_perm (.keep rfl (.keep htemporary (.keep hself (.keep rfl
      (.keep hargs .nil))))) (List.reverse_perm [_, _, _, _, _]))
  have hdepth : j.depth ≤ 127 := by decide
  have hdepth' : j'.depth ≤ 127 := by decide
  obtain ⟨-, hoperand⟩ := decode_every_spelling.1 x
  obtain ⟨-, hinstruction⟩ := decode_every_spelling.2 i
  obtain ⟨htexts, hread⟩ := hoperand j hx hdepth
  obtain ⟨htexts', hread'⟩ := hinstruction j' hi hdepth'
  exact ⟨hx, hdepth, hread _ (htexts _ (by simp [Json.layouts])), hi, hdepth',
    hread' _ (htexts' _ (by simp [Json.layouts]))⟩

/-- A number that is too large cannot be read where a member is read whole, and a list for an operand
without content still has a place for it. -/
theorem not_decode_every_spelling :
    let i : Instruction := .receiveSelf (.ofTemporary ⟨0⟩)
    let huge : Json := .number ⟨false, 1, [], some 400⟩
    let j : Json := .object [("op", .text "receive_self"),
      ("result", (Variable.ofTemporary ⟨0⟩).toJson), ("note", huge)]
    let j' : Json := .list [.text "nil"]
    i.Spelled Valid j ∧ j.depth ≤ 127 ∧ j.IsText j.render ∧
      decode Instruction.decoder j.render = .error (.fault .numberTooLarge) ∧
      j'.IsText j'.render ∧ decode Operand.decoder j'.render =
        .error (.mismatch (.wrongLength 1 "adjacently tagged enum Operand")) := by
  intro i huge j j'
  have hhuge : huge.Valid := by simp [huge, Json.Numbers, Json.Literal.WellFormed]
  have hresult : (Variable.ofTemporary ⟨0⟩).toJson.Valid :=
    Json.Readable.valid ((Variable.inverts 0).readable _)
  have htext : j.IsText j.render := Json.isText_render ⟨trivial, hresult, hhuge, trivial⟩
  have htext' : j'.IsText j'.render := Json.isText_render ⟨trivial, trivial⟩
  have hothers : ∀ m ∈ [("note", huge)], (∀ f ∈ required "op" (Written .text i.tag) ::
      i.spellings Valid, f.name ≠ m.1) ∧ m.2.Valid := by
    intro m hm
    obtain rfl := List.mem_singleton.1 hm
    refine ⟨?_, hhuge⟩
    change ∀ f ∈ [_, required "result" _], f.name ≠ "note"
    simp
  have hi : i.Spelled Valid j :=
    .inl ⟨_, rfl, [("op", .text "receive_self"), ("result", _)], [("note", huge)],
      .keep rfl (.keep (Variable.spelled_toJson Valid _) .nil), .refl _, hothers⟩
  refine ⟨hi, by decide, htext, ?_, htext', ?_⟩
  · rw [Json.decode_of_isText htext]
    rfl
  · rw [Json.decode_of_isText htext']
    rfl

end MethodIR
