import MethodIR.Proofs.Json.Acceptance
import MethodIR.Report.Basic

/-!
What may be written for a unit, and that it is all read as that unit. Members of other names may
stand in every object. Outside of bodies they are passed over, so that it does not matter what they
hold; a step is read whole, with all that stands in it.
-/
namespace MethodIR

open Json (Decoder RecordField Fields Variant FieldSpelling Kept Written SpelledOption SpelledList
  SpelledObject SpelledRecord Valid Readable decode depth membersDepth depth_list_map_le
  spelledList_map spelledOption_optional decode_of_isText isText_render isText_of_mem_layouts)
open Json.Decoder (inverts_text inverts_u32 inverts_i64 inverts_boolean accepts_written
  accepts_list accepts_firstOf accepts_object accepts_record accepts_tagged)
open Json.RecordField (accepts_required accepts_optional accepts_withDefault)
open Json.Variant (accepts_bare)
open Json.FieldSpelling (required optional withDefault)

namespace Description

variable {beside inside : Json → Prop} {j : Json}

def number (n : UInt32) : Json := .nat n.toNat

/-! Values. -/

namespace Value

def toJson : Value → Json
  | .fixnum n => .int n.toInt
  | .text s => .text s
  | .variable name => .object [("var", .text name)]

/-- What may be written for a value; `inside` holds of what other members hold. -/
def Spelled (inside : Json → Prop) : Value → Json → Prop
  | .fixnum n => Written (fun n : Int64 => .int n.toInt) n
  | .text s => Written .text s
  | .variable name => SpelledObject inside [required "var" (Written .text name)]

theorem spelled_toJson (inside : Json → Prop) (v : Value) : v.Spelled inside v.toJson := by
  cases v with
  | fixnum n => rfl
  | text s => rfl
  | «variable» name => exact Kept.spelledObject (.keep rfl .nil)

theorem ne_null (v : Value) (j : Json) (h : v.Spelled inside j) : j ≠ .null := by
  rintro rfl
  cases v with
  | fixnum n => cases h
  | text s => cases h
  | «variable» name =>
    obtain ⟨ms, hms, -⟩ := h
    cases hms

/-- An integer is no text and no object, and a text is no object. -/
theorem accepts (v : Value) : decoder.Accepts Json.Literal.Readable (v.Spelled Readable) v := by
  cases v with
  | fixnum n =>
    exact accepts_firstOf "ValueDesc" [] ((accepts_written inverts_i64 n).map Value.fixnum)
      fun j hj d hd => nomatch hd
  | text s =>
    refine accepts_firstOf "ValueDesc" [_] ((accepts_written inverts_text s).map Value.text) ?_
    rintro _ rfl
    exact List.forall_mem_singleton.2 fun levels => rfl
  | «variable» name =>
    have hname := accepts_required "var" (accepts_written inverts_text name)
    have hrecord := accepts_object "struct variant ValueDesc::Var" (.field hname (by simp) .done)
      fun _ h => h
    refine accepts_firstOf "ValueDesc" [_, _] (hrecord.map fun r => Value.variable r.1) ?_
    rintro j ⟨ms, rfl, -⟩
    exact List.forall_mem_cons.2 ⟨fun levels => rfl, List.forall_mem_singleton.2 fun levels => rfl⟩

theorem depth_toJson_le (v : Value) : v.toJson.depth ≤ 1 := by
  cases v with
  | fixnum | text => exact Nat.zero_le 1
  | «variable» => exact Nat.le_refl 1

end Value

/-! Steps. -/

namespace Step

def tag : Step → String
  | .receive .. => "recv_arg"
  | .receiveOptional .. => "recv_opt_arg"
  | .receiveKeyword _ => "recv_kw_arg"
  | .receivePost .. => "recv_post_arg"
  | .receiveRest .. => "recv_rest_arg"
  | .receiveBlock => "recv_block"
  | .receiveSelf _ => "recv_self"
  | .copy .. => "copy"
  | .call .. => "call"
  | .giveBack _ => "return"
  | .line _ => "line"

def members : Step → List (String × Json)
  | .receive name index | .receiveRest name index =>
    [("name", .text name), ("index", number index)]
  | .receiveOptional name index least =>
    [("name", .text name), ("index", number index), ("min_args", number least)]
  | .receivePost name index before =>
    [("name", .text name), ("index", number index), ("pre_count", number before)]
  | .receiveKeyword name | .receiveSelf name => [("name", .text name)]
  | .receiveBlock => []
  | .copy name value => [("name", .text name), ("value", Json.optional Value.toJson value)]
  | .call result callee args =>
    [("result", Json.optional .text result), ("method", .text callee),
      ("args", .list (args.map Value.toJson))]
  | .giveBack value => [("value", Json.optional Value.toJson value)]
  | .line n => [("line", number n)]

def toJson (s : Step) : Json := .object (("op", .text s.tag) :: s.members)

/-- The fields of a step in their order. -/
def spellings (inside : Json → Prop) : Step → List FieldSpelling
  | .receive name index | .receiveRest name index =>
    [required "name" (Written .text name), required "index" (Written number index)]
  | .receiveOptional name index least =>
    [required "name" (Written .text name), required "index" (Written number index),
      required "min_args" (Written number least)]
  | .receivePost name index before =>
    [required "name" (Written .text name), required "index" (Written number index),
      required "pre_count" (Written number before)]
  | .receiveKeyword name | .receiveSelf name => [required "name" (Written .text name)]
  | .receiveBlock => []
  | .copy name value =>
    [required "name" (Written .text name), optional "value" (Value.Spelled inside) value]
  | .call result callee args =>
    [optional "result" (Written .text) result, required "method" (Written .text callee),
      withDefault "args" (SpelledList (Value.Spelled inside)) [] args]
  | .giveBack value => [optional "value" (Value.Spelled inside) value]
  | .line n => [required "line" (Written number n)]

/-- The name of the form is a member of an object, or the first item of a list. -/
def Spelled (inside : Json → Prop) (s : Step) : Json → Prop :=
  SpelledRecord inside (required "op" (Written .text s.tag) :: s.spellings inside)

theorem kept_members (inside : Json → Prop) (s : Step) : Kept (s.spellings inside) s.members := by
  have hvalue := spelledOption_optional (Value.spelled_toJson inside)
  have hargs := spelledList_map (Value.spelled_toJson inside)
  have hresult : ∀ s?, SpelledOption (Written .text) s? (Json.optional .text s?) :=
    spelledOption_optional fun _ => rfl
  cases s with
  | receive | receiveRest => exact .keep rfl (.keep rfl .nil)
  | receiveOptional | receivePost => exact .keep rfl (.keep rfl (.keep rfl .nil))
  | receiveKeyword | receiveSelf | line => exact .keep rfl .nil
  | receiveBlock => exact .nil
  | copy name value => exact .keep rfl (.keep (hvalue value) .nil)
  | call result callee args => exact .keep (hresult result) (.keep rfl (.keep (hargs args) .nil))
  | giveBack value => exact .keep (hvalue value) .nil

theorem spelled_toJson (inside : Json → Prop) (s : Step) : s.Spelled inside s.toJson :=
  Kept.spelledRecord (.keep rfl (s.kept_members inside))

theorem op_fresh (inside : Json → Prop) (s : Step) : ∀ f ∈ s.spellings inside, "op" ≠ f.name := by
  cases s <;> simp [spellings]

theorem accepts_name (name : String) :
    nameField.Accepts Json.Literal.Readable (required "name" (Written .text name)) name :=
  accepts_required "name" (accepts_written inverts_text name)

theorem accepts_number (name : String) (n : UInt32) :
    (RecordField.required name Decoder.u32).Accepts Json.Literal.Readable
      (required name (Written number n)) n :=
  accepts_required name (accepts_written inverts_u32 n)

theorem accepts_value (value : Option Value) :
    valueField.Accepts Json.Literal.Readable (optional "value" (Value.Spelled Readable) value)
      value :=
  accepts_optional "value" Value.accepts Value.ne_null value

theorem accepts_receipt (name : String) (index : UInt32) :
    (Fields.field nameField (.field indexField .done)).Accepts Json.Literal.Readable
      [required "name" (Written .text name), required "index" (Written number index)]
      (name, index, ()) :=
  .field (accepts_name name) (by simp) (.field (accepts_number "index" index) (by simp) .done)

theorem accepts_receiptAnd {last : String} (hname : "name" ≠ last) (hindex : "index" ≠ last)
    (name : String) (index n : UInt32) :
    (Fields.field nameField (.field indexField
      (.field (.required last Decoder.u32) .done))).Accepts Json.Literal.Readable
      [required "name" (Written .text name), required "index" (Written number index),
        required last (Written number n)]
      (name, index, n, ()) := by
  have hlast := Fields.Accepts.field (accepts_number last n) (by simp) .done
  have hrest := Fields.Accepts.field (accepts_number "index" index) (by simp [hindex]) hlast
  exact .field (accepts_name name) (by simp [hname]) hrest

theorem accepts (s : Step) : decoder.Accepts Json.Literal.Readable (s.Spelled Readable) s := by
  have hfresh := op_fresh Readable s
  have hextra : ∀ j, Readable j → j.Readable := fun _ h => h
  cases s with
  | receive name index | receiveRest name index =>
    exact accepts_tagged "BodyOp" rfl (Variant.accepts_record _ (accepts_receipt name index) _)
      hfresh hextra
  | receiveOptional name index n | receivePost name index n =>
    exact accepts_tagged "BodyOp" rfl (Variant.accepts_record _
      (accepts_receiptAnd (by decide) (by decide) name index n) _) hfresh hextra
  | receiveKeyword name | receiveSelf name =>
    exact accepts_tagged "BodyOp" rfl (Variant.accepts_record _
      (.field (accepts_name name) (by simp) .done) _) hfresh hextra
  | receiveBlock => exact accepts_tagged "BodyOp" rfl (accepts_bare _) hfresh hextra
  | copy name value =>
    exact accepts_tagged "BodyOp" rfl (Variant.accepts_record _
      (.field (accepts_name name) (by simp) (.field (accepts_value value) (by simp) .done)) _)
      hfresh hextra
  | call result callee args =>
    have hargs := accepts_withDefault "args" [] (accepts_list Value.accepts args)
    have hcallee := accepts_required "method" (accepts_written inverts_text callee)
    have hresult := accepts_optional "result" (accepts_written inverts_text)
      (fun _ _ h hj => nomatch h.symm.trans hj) result
    exact accepts_tagged "BodyOp" rfl (Variant.accepts_record _
      (.field hresult (by simp) (.field hcallee (by simp) (.field hargs (by simp) .done))) _)
      hfresh hextra
  | giveBack value =>
    exact accepts_tagged "BodyOp" rfl (Variant.accepts_record _
      (.field (accepts_value value) (by simp) .done) _) hfresh hextra
  | line n =>
    exact accepts_tagged "BodyOp" rfl (Variant.accepts_record _
      (.field (accepts_number "line" n) (by simp) .done) _) hfresh hextra

theorem depth_toJson_le (s : Step) : s.toJson.depth ≤ 3 := by
  have hvalue : ∀ value, (Json.optional Value.toJson value).depth ≤ 1 := by
    rintro (_ | v)
    · exact Nat.zero_le 1
    · exact v.depth_toJson_le
  have hargs := depth_list_map_le Value.depth_toJson_le
  have hresult : ∀ result, (Json.optional Json.text result).depth = 0 := by
    rintro (_ | s) <;> rfl
  have hnumber : ∀ n, (number n).depth = 0 := fun _ => rfl
  have hmembers : membersDepth s.members ≤ 2 := by
    cases s with
    | copy name value | giveBack value =>
      have := hvalue value
      simp only [members, membersDepth, depth]
      omega
    | call result callee args =>
      have := hargs args
      simp only [members, membersDepth, hresult, depth] at this ⊢
      omega
    | _ => simp [members, membersDepth, depth, hnumber]
  rw [toJson, depth, membersDepth, depth, Nat.zero_max]
  exact Nat.succ_le_succ hmembers

end Step

/-! Methods. -/

namespace Param

def toJson (p : Param) : Json := .object [("kind", .text p.kind), ("name", .text p.name)]

def Spelled (beside : Json → Prop) (p : Param) : Json → Prop :=
  SpelledRecord beside
    [required "kind" (Written .text p.kind), required "name" (Written .text p.name)]

theorem spelled_toJson (beside : Json → Prop) (p : Param) : p.Spelled beside p.toJson :=
  Kept.spelledRecord (.keep rfl (.keep rfl .nil))

theorem accepts (p : Param) : decoder.Accepts Json.Literal.WellFormed (p.Spelled Valid) p := by
  have hname := accepts_required "name" (accepts_written inverts_text p.name).valid
  have hkind := accepts_required "kind" (accepts_written inverts_text p.kind).valid
  have hfields := Fields.Accepts.field hkind (by simp) (.field hname (by simp) .done)
  exact (accepts_record "struct ParamDesc" hfields fun _ h => h).map _

end Param

namespace Method

def toJson (m : Method) : Json :=
  .object [("name", .text m.name), ("line", number m.line), ("instance", .boolean m.isInstance),
    ("static_scope", .boolean m.hasStaticScope), ("params", .list (m.params.map Param.toJson)),
    ("body", .list (m.body.map Step.toJson))]

def Spelled (beside inside : Json → Prop) (m : Method) : Json → Prop :=
  SpelledRecord beside
    [required "name" (Written .text m.name),
      withDefault "line" (Written number) 1 m.line,
      withDefault "instance" (Written .boolean) true m.isInstance,
      withDefault "static_scope" (Written .boolean) false m.hasStaticScope,
      withDefault "params" (SpelledList (Param.Spelled beside)) [] m.params,
      withDefault "body" (SpelledList (Step.Spelled inside)) [] m.body]

theorem spelled_toJson (beside inside : Json → Prop) (m : Method) :
    m.Spelled beside inside m.toJson := by
  have hparams := spelledList_map (Param.spelled_toJson beside) m.params
  have hbody := spelledList_map (Step.spelled_toJson inside) m.body
  exact Kept.spelledRecord
    (.keep rfl (.keep rfl (.keep rfl (.keep rfl (.keep hparams (.keep hbody .nil))))))

theorem accepts (m : Method) :
    decoder.Accepts Json.Literal.WellFormed (m.Spelled Valid Readable) m := by
  have hbody := accepts_withDefault "body" [] (accepts_list Step.accepts m.body).valid
  have hparams := accepts_withDefault "params" [] (accepts_list Param.accepts m.params)
  have hscope := accepts_withDefault "static_scope" false
    (accepts_written inverts_boolean m.hasStaticScope).valid
  have hinstance := accepts_withDefault "instance" true
    (accepts_written inverts_boolean m.isInstance).valid
  have hline := accepts_withDefault "line" 1 (accepts_written inverts_u32 m.line).valid
  have hname := accepts_required "name" (accepts_written inverts_text m.name).valid
  have hlists := Fields.Accepts.field hparams (by simp) (.field hbody (by simp) .done)
  have hflags := Fields.Accepts.field hinstance (by simp) (.field hscope (by simp) hlists)
  have hfields := Fields.Accepts.field hname (by simp) (.field hline (by simp) hflags)
  exact (accepts_record "struct MethodDesc" hfields fun _ h => h).map _

end Method

/-! Units. -/

def toJson (d : Description) : Json :=
  .object [("file", .text d.file), ("methods", .list (d.methods.map Method.toJson))]

/-- What may be written for a unit: `inside` holds of what the members that are no fields hold in
the steps of bodies, and `beside` of what they hold elsewhere. -/
def Spelled (beside inside : Json → Prop) (d : Description) : Json → Prop :=
  SpelledRecord beside
    [required "file" (Written .text d.file),
      withDefault "methods" (SpelledList (Method.Spelled beside inside)) [] d.methods]

theorem spelled_toJson (beside inside : Json → Prop) (d : Description) :
    d.Spelled beside inside d.toJson := by
  have hmethods := spelledList_map (Method.spelled_toJson beside inside) d.methods
  exact Kept.spelledRecord (.keep rfl (.keep hmethods .nil))

theorem accepts (d : Description) :
    decoder.Accepts Json.Literal.WellFormed (d.Spelled Valid Readable) d := by
  have hmethods := accepts_withDefault "methods" [] (accepts_list Method.accepts d.methods)
  have hfile := accepts_required "file" (accepts_written inverts_text d.file).valid
  have hfields := Fields.Accepts.field hfile (by simp) (.field hmethods (by simp) .done)
  exact (accepts_record "struct UnitDesc" hfields fun _ h => h).map _

theorem depth_toJson_le (d : Description) : d.toJson.depth ≤ 7 := by
  have hparam : ∀ p : Param, p.toJson.depth ≤ 1 := fun p => Nat.le_refl 1
  have hmethod : ∀ m : Method, m.toJson.depth ≤ 5 := by
    intro m
    have hparams := depth_list_map_le hparam m.params
    have hbody := depth_list_map_le Step.depth_toJson_le m.body
    have hline : (number m.line).depth = 0 := rfl
    simp only [Method.toJson, depth, membersDepth, hline] at *
    omega
  have hmethods := depth_list_map_le hmethod d.methods
  simp only [toJson, depth, membersDepth] at *
  omega

/-- Every unit has a source. -/
theorem decode_render (d : Description) : decode decoder d.toJson.render = .ok d := by
  have hspelled := d.spelled_toJson Valid Readable
  rw [decode_of_isText (isText_render (d.accepts.numbers hspelled))]
  exact d.accepts.reads hspelled .streamed (Nat.le_trans d.depth_toJson_le (by decide))

end Description

/-- The reports on two sources of one unit differ in the digest only. -/
theorem Report.ofSource_alike {source source' : String} {d : Description}
    (h : decode Description.decoder source = .ok d)
    (h' : decode Description.decoder source' = .ok d) (options : Options) :
    ofSource source options =
      (ofSource source' options).map fun r => { r with sourceHash := hashOf source } := by
  rw [ofSource, ofSource, h, h', map_bind_eq]
  refine congrArg _ (funext fun d => ?_)
  rw [map_bind_eq]
  refine congrArg _ (funext fun r => ?_)
  rw [map_bind_eq]
  rfl

theorem Report.ofSource_ne_json {source : String} {d : Description}
    (h : decode Description.decoder source = .ok d) (options : Options) (e : Json.Error) :
    ofSource source options ≠ .error (.json e) := by
  intro he
  rw [ofSource, h] at he
  change ((d.build options).mapError _ >>= _) = _ at he
  rcases bind_eq_error_iff.1 he with he | ⟨⟨ids, a⟩, -, he⟩
  · obtain ⟨e', -, hcause⟩ := mapError_eq_error_iff.1 he
    cases hcause
  · rcases bind_eq_error_iff.1 he with he | ⟨methods, -, he⟩
    · rw [mapM_mapError] at he
      obtain ⟨e', -, hcause⟩ := mapError_eq_error_iff.1 he
      cases hcause
    · cases he

namespace Description

/-- Every text of every spelling of a unit is decoded as that unit, if no more than 127 lists and
objects contain one another in it. So it is reported on as the text that spells everything out is:
with the same methods, or the same reason why the unit cannot be built. -/
theorem decode_spelled (d : Description) :
    d.Spelled Valid Readable d.toJson ∧ d.toJson.depth ≤ 7 ∧
    ∀ j, d.Spelled Valid Readable j → j.depth ≤ 127 →
      (∀ s ∈ j.layouts, j.IsText s) ∧
      ∀ s, j.IsText s → decode decoder s = .ok d ∧ ∀ options,
        (∀ e, Report.ofSource s options ≠ .error (.json e)) ∧
        Report.ofSource s options = (Report.ofSource d.toJson.render options).map
          fun r => { r with sourceHash := Report.hashOf s } := by
  have hdecode : ∀ j, d.Spelled Valid Readable j → j.depth ≤ 127 → ∀ s, j.IsText s →
      decode decoder s = .ok d := by
    intro j hj hdepth s hs
    rw [decode_of_isText hs]
    exact d.accepts.reads hj .streamed hdepth
  have hspelled := d.spelled_toJson Valid Readable
  have hcanonical := hdecode _ hspelled (Nat.le_trans d.depth_toJson_le (by decide)) _
    (isText_render (d.accepts.numbers hspelled))
  refine ⟨hspelled, d.depth_toJson_le, fun j hj hdepth => ⟨fun s hs => ?_, fun s hs => ?_⟩⟩
  · exact isText_of_mem_layouts (d.accepts.numbers hj) hs
  · have hread := hdecode j hj hdepth s hs
    exact ⟨hread, fun options => ⟨Report.ofSource_ne_json hread options,
      Report.ofSource_alike hread hcanonical options⟩⟩

/-- Members in the reverse order, among others, one with a number that is too large for any reader;
records as lists; nothing that may be left out or cut off. -/
theorem decode_spelled_reversed :
    let m : Description.Method := ⟨"m", 1, true, false, [⟨"req", "a"⟩],
      [.receive "a" 0, .copy "x" (some (.variable "a")), .call none "puts" [], .giveBack none]⟩
    let d : Description := ⟨"f.rb", [m]⟩
    let huge : Json := .number ⟨false, 1, [], some 400⟩
    let copy : Json := .object [("value", .object [("note", .list []), ("var", .text "a")]),
      ("name", .text "x"), ("op", .text "copy")]
    let method : Json := .object [
      ("body", .list [.list [.text "recv_arg", .text "a", .nat 0], copy,
        .list [.text "call", .null, .text "puts"], .object [("note", .null), ("op", .text "return")]]),
      ("params", .list [.list [.text "req", .text "a"]]), ("name", .text "m")]
    let j : Json := .object [("note", huge), ("methods", .list [method]), ("file", .text "f.rb")]
    d.Spelled Valid Readable j ∧ j.depth ≤ 127 ∧ decode decoder j.render = .ok d ∧
      decode decoder j.pretty = .ok d := by
  intro m d huge copy method j
  have hvariable : (Value.variable "a").Spelled Readable
      (.object [("note", .list []), ("var", .text "a")]) :=
    ⟨_, rfl, [("var", .text "a")], [("note", .list [])], .keep rfl .nil, .swap _ _ _, by
      simp [Json.Numbers, Json.ItemsNumbers]⟩
  have hcopy : (Step.copy "x" (some (.variable "a"))).Spelled Readable copy :=
    .inl (Kept.spelledObject_of_perm (.keep rfl (.keep rfl (.keep hvariable .nil)))
      (List.reverse_perm [_, _, _]))
  have hreturn : (Step.giveBack none).Spelled Readable
      (.object [("note", .null), ("op", .text "return")]) :=
    .inl ⟨_, rfl, [("op", .text "return")], [("note", .null)], .keep rfl (.leave rfl .nil),
      .swap _ _ _, by simp [Step.spellings, Json.Numbers]⟩
  have hreceive : (Step.receive "a" 0).Spelled Readable
      (.list [.text "recv_arg", .text "a", .nat 0]) :=
    .inr ⟨_, rfl, .item rfl (.item rfl (.item rfl (.cut (by simp))))⟩
  have hcall : (Step.call none "puts" []).Spelled Readable
      (.list [.text "call", .null, .text "puts"]) :=
    .inr ⟨_, rfl, .item rfl (.item rfl (.item rfl (.cut (by simp [withDefault]))))⟩
  have hparam : (Param.mk "req" "a").Spelled Valid (.list [.text "req", .text "a"]) :=
    .inr ⟨_, rfl, .item rfl (.item rfl (.cut (by simp)))⟩
  have hmethod : m.Spelled Valid Readable method :=
    .inl (Kept.spelledObject_of_perm
      (.keep rfl (.leave rfl (.leave rfl (.leave rfl (.keep ⟨_, rfl, .cons hparam .nil⟩
        (.keep ⟨_, rfl, .cons hreceive (.cons hcopy (.cons hcall (.cons hreturn .nil)))⟩ .nil))))))
      (List.reverse_perm [_, _, _]))
  have hj : d.Spelled Valid Readable j :=
    .inl ⟨_, rfl, [("file", .text "f.rb"), ("methods", _)], [("note", huge)],
      .keep rfl (.keep ⟨_, rfl, .cons hmethod .nil⟩ .nil), List.reverse_perm [_, _, _], by
        simp [huge, Json.Numbers, Json.Literal.WellFormed]⟩
  have hdepth : j.depth ≤ 127 := by decide
  obtain ⟨-, -, hspelled⟩ := decode_spelled d
  obtain ⟨htexts, hread⟩ := hspelled j hj hdepth
  exact ⟨hj, hdepth, (hread _ (htexts _ (by simp [Json.layouts]))).1,
    (hread _ (htexts _ (by simp [Json.layouts]))).1⟩

/-- What is inserted into a step is read. So a number that is too large, which is passed over
elsewhere, makes the text unreadable there. -/
theorem not_decode_spelled_huge :
    let d : Description := ⟨"f", [⟨"m", 1, true, false, [], [.receiveBlock]⟩]⟩
    let step : Json := .object [("op", .text "recv_block"),
      ("note", .number ⟨false, 1, [], some 400⟩)]
    let j : Json := .object [("file", .text "f"), ("methods", .list [.object
      [("name", .text "m"), ("body", .list [step])]])]
    d.Spelled Valid Valid j ∧ j.depth ≤ 127 ∧ j.IsText j.render ∧
      decode decoder j.render = .error (.fault .numberTooLarge) := by
  intro d step j
  have hvalid : j.Valid := by
    simp [j, step, Json.Numbers, Json.MembersNumbers, Json.ItemsNumbers, Json.Literal.WellFormed]
  have htext := isText_render hvalid
  have hvalidStep : Step.receiveBlock.Spelled Valid step :=
    .inl ⟨_, rfl, [("op", .text "recv_block")], [("note", _)], .keep rfl .nil, .refl _, by
      simp [Step.spellings, Json.Numbers, Json.Literal.WellFormed]⟩
  have hmethod : (Method.mk "m" 1 true false [] [.receiveBlock]).Spelled Valid Valid
      (.object [("name", .text "m"), ("body", .list [step])]) :=
    Kept.spelledRecord (.keep rfl (.leave rfl (.leave rfl (.leave rfl (.leave rfl
      (.keep ⟨_, rfl, .cons hvalidStep .nil⟩ .nil))))))
  have hj : d.Spelled Valid Valid j :=
    Kept.spelledRecord (.keep rfl (.keep ⟨_, rfl, .cons hmethod .nil⟩ .nil))
  refine ⟨hj, by decide, htext, ?_⟩
  rw [decode_of_isText htext]
  rfl

end Description

end MethodIR
