import Mathlib.Algebra.GroupWithZero.Nat
import Mathlib.Data.List.Forall2
import MethodIR.Proofs.Description.Spelling
import MethodIR.Proofs.Instruction.Unambiguity
import MethodIR.Proofs.Text.Lines
import MethodIR.Report.Text

/-!
The text of a report, line by line. If no line feed stands in the names of the file, the methods, the
variables and the callees, then each method has its block of lines there: four on the method and one
on each step of its body, whatever its text literals and its parameters are.
-/
namespace MethodIR

open Text (Unbroken unbroken_append unbroken_intercalate unbroken_quoted)

/-! What is shown of variables, operands and instructions. -/

theorem Token.IsWord.unbroken {w : String} (h : IsWord w) : Unbroken w := by
  intro hbreak
  have hword := h.2 _ hbreak
  revert hword
  decide

@[simp] theorem unbroken_toString (n : UInt32) : Unbroken (toString n) :=
  (isWord_toString n).unbroken

theorem TemporaryVariable.unbroken_text (t : TemporaryVariable) : Unbroken t.text :=
  unbroken_append.2 ⟨by decide, unbroken_toString t.index⟩

theorem Operand.unbroken_render {x : Operand} (h : ∀ v, x.named? = some v → Unbroken v.text) :
    Unbroken x.render := by
  induction x with
  | «variable» v => exact h v rfl
  | splat inner ih => exact unbroken_append.2 ⟨by decide, ih h⟩
  | text s => exact unbroken_quoted s
  | fixnum n => exact (isWord_toString_int n.toInt).unbroken
  | nil | self =>
    rw [render]
    decide

namespace Instruction

variable {i : Instruction}

/-- Only variables, keywords and callees can bring a line feed into the text of an instruction. -/
theorem unbroken_render (hvariables : ∀ v ∈ i.variables, Unbroken v.text)
    (hlabels : ∀ name ∈ i.labels, Unbroken name) : Unbroken i.render := by
  have hresult : ∀ v, i.result? = some v → Unbroken v.text := by
    intro v hv
    exact hvariables v (List.mem_append_right _ (Option.mem_toList.2 hv))
  have hoperand : ∀ x ∈ i.operands, Unbroken x.render := by
    intro x hx
    apply Operand.unbroken_render
    intro v hv
    exact hvariables v (List.mem_append_left _ (List.mem_filterMap.2 ⟨x, hx, hv⟩))
  -- Between the parts of the text stand fixed texts only.
  cases i with
  | receiveRequired v | receiveOptional v | receivePost v | receiveRest v =>
    have hv := hresult v rfl
    simp only [render, unbroken_append, unbroken_toString, hv, true_and, and_true]
    decide
  | receiveBlock v | receiveSelf v =>
    have hv := hresult v rfl
    simp only [render, unbroken_append, hv, true_and]
    decide
  | receiveKeyword v name =>
    have hv := hresult v rfl
    have hname := hlabels name List.mem_cons_self
    simp only [render, unbroken_append, hv, hname, true_and, and_true]
    decide
  | copy v value =>
    have hv := hresult v rfl
    have hvalue := hoperand value List.mem_cons_self
    simp only [render, unbroken_append, hv, hvalue, true_and, and_true]
    decide
  | call v receiver name args =>
    have hv := hresult v rfl
    have hreceiver := hoperand receiver List.mem_cons_self
    have hname := hlabels name List.mem_cons_self
    have hargs : Unbroken (", ".intercalate (args.map Operand.render)) := by
      apply unbroken_intercalate (by decide)
      intro text htext
      obtain ⟨x, hx, rfl⟩ := List.mem_map.1 htext
      exact hoperand x (List.mem_cons_of_mem receiver hx)
    simp only [render, unbroken_append, hv, hreceiver, hname, hargs, true_and, and_true]
    decide
  | giveBack value =>
    have hvalue := hoperand value List.mem_cons_self
    simp only [render, unbroken_append, hvalue, and_true]
    decide
  | line number =>
    simp only [render, unbroken_append, unbroken_toString, and_true]
    decide

end Instruction

/-- A parameter is shown with its name between quotes. -/
theorem Parameter.unbroken_render (p : Parameter) : Unbroken p.render := by
  have hkind : Unbroken p.kind.symbol := by
    cases p.kind <;> decide
  simp only [render, unbroken_append, unbroken_quoted, hkind, and_true]
  decide

/-! What is shown of a method. -/

namespace Summary

variable {s : Summary}

theorem unbroken_heading (hscope : Unbroken s.scope) (hname : Unbroken s.name)
    (hfile : Unbroken s.file) : Unbroken s.heading := by
  have hside : Unbroken (if s.isInstance then "instance" else "singleton") := by
    split <;> decide
  simp only [heading, unbroken_append, unbroken_toString, hscope, hname, hfile, hside, true_and,
    and_true]
  decide

theorem unbroken_variablesLine (h : ∀ v ∈ s.locals, Unbroken v.name) :
    Unbroken s.variablesLine := by
  have hvariables :
      Unbroken (" ".intercalate (s.locals.map fun v => v.name ++ "@" ++ toString v.slot)) := by
    apply unbroken_intercalate (by decide)
    intro text htext
    obtain ⟨v, hv, rfl⟩ := List.mem_map.1 htext
    have hname := h v hv
    simp only [unbroken_append, unbroken_toString, hname, true_and, and_true]
    decide
  exact unbroken_append.2 ⟨by decide, hvariables⟩

theorem unbroken_signatureLine (h : ∀ entry ∈ s.signature, Unbroken entry) :
    Unbroken s.signatureLine := by
  have hentries : Unbroken (", ".intercalate s.signature) := unbroken_intercalate (by decide) h
  exact unbroken_append.2 ⟨unbroken_append.2 ⟨by decide, hentries⟩, by decide⟩

theorem unbroken_parametersLine (s : Summary) : Unbroken s.parametersLine := by
  have hparameters : Unbroken (", ".intercalate (s.parameters.map Parameter.render)) := by
    apply unbroken_intercalate (by decide)
    intro text htext
    obtain ⟨p, -, rfl⟩ := List.mem_map.1 htext
    exact p.unbroken_render
  exact unbroken_append.2 ⟨unbroken_append.2 ⟨by decide, hparameters⟩, by decide⟩

/-- The lines of a summary are unbroken if its texts are, whatever its parameters are called. -/
theorem unbroken_lines (hscope : Unbroken s.scope) (hname : Unbroken s.name)
    (hfile : Unbroken s.file) (hlocals : ∀ v ∈ s.locals, Unbroken v.name)
    (hsignature : ∀ entry ∈ s.signature, Unbroken entry)
    (hinstructions : ∀ text ∈ s.instructions, Unbroken text) : ∀ l ∈ s.lines, Unbroken l := by
  intro l hl
  rcases List.mem_append.1 hl with hfirst | hrest
  · simp only [List.mem_cons, List.not_mem_nil, or_false] at hfirst
    rcases hfirst with rfl | rfl | rfl | rfl
    · exact unbroken_heading hscope hname hfile
    · exact unbroken_variablesLine hlocals
    · exact unbroken_signatureLine hsignature
    · exact unbroken_parametersLine s
  · obtain ⟨text, htext, rfl⟩ := List.mem_map.1 hrest
    exact unbroken_append.2 ⟨by decide, hinstructions text htext⟩

theorem length_lines (s : Summary) : s.lines.length = 4 + s.instructions.length := by
  rw [lines, List.length_append, List.length_map]
  rfl

end Summary

/-- If no line feed is in the names of a method and in its instructions, then none is in its lines. -/
theorem Method.unbroken_lines {m : Method} {file : String} (hfile : Unbroken file)
    (hname : Unbroken m.name) (hvariables : ∀ v ∈ m.variables, Unbroken v.text)
    (hinstructions : ∀ i ∈ m.instructions, Unbroken i.render) :
    ∀ l ∈ (m.summary file).lines, Unbroken l := by
  have hscope : Unbroken "Method" := by decide
  apply Summary.unbroken_lines (s := m.summary file) hscope hname hfile
  · intro v hv
    have hmem : .ofLocal v ∈ m.locals.toList.map Variable.ofLocal := List.mem_map_of_mem hv
    exact hvariables (.ofLocal v) (List.mem_append_left _ (List.mem_append_left _ hmem))
  · intro entry hentry
    obtain ⟨x, hx, rfl⟩ := List.mem_map.1 hentry
    apply Operand.unbroken_render
    intro v hv
    exact hvariables v (List.mem_append_right _ (List.mem_filterMap.2 ⟨x, hx, hv⟩))
  · intro text htext
    obtain ⟨i, hi, rfl⟩ := List.mem_map.1 htext
    exact hinstructions i hi

/-- The block of lines on a method that stands for a description: a first line that says what it is
and where, three more, and the text of each instruction behind four blanks. -/
structure Method.ShownBy (m : Method) (d : Description.Method) (file : String)
    (block : List String) : Prop where
  heading : block[0]? = some ("Method " ++ d.name ++ " (" ++
    (if d.isInstance then "instance" else "singleton") ++ ") at " ++ file ++ ":" ++ toString d.line)
  instructions : block.drop 4 = m.instructions.map fun i => "    " ++ i.render
  length : block.length = 4 + d.body.length

/-! Described methods. -/

namespace Description

/-- The names in a described method that are shown as they are. -/
def Method.shownNames (d : Method) : List String :=
  d.name :: d.body.flatMap fun s => s.sourceNames ++ s.labels

/-- The names of a unit that are shown as they are: those of the file, of its methods, and of the
variables, keywords and callees in them. -/
def shownNames (d : Description) : List String := d.file :: d.methods.flatMap Method.shownNames

end Description

namespace Method.Translates

variable {m : Method} {d : Description.Method} {file : String} (h : m.Translates d)

include h

theorem unbroken_text (hd : ∀ name ∈ d.shownNames, Unbroken name) {v : Variable}
    (hv : v ∈ m.variables) : Unbroken v.text := by
  rcases h.mem_variables hv with ⟨name, hn, rfl⟩ | ⟨t, rfl⟩
  · obtain ⟨s, hs, hn⟩ := h.mem_names_iff.1 hn
    rcases Description.Step.mem_names_iff.1 hn with ⟨-, rfl⟩ | hsource
    · have hblock : Unbroken blockName := by decide
      exact hblock
    · apply hd name
      exact List.mem_cons_of_mem _ (List.mem_flatMap.2 ⟨s, hs, List.mem_append_left _ hsource⟩)
  · exact t.unbroken_text

theorem unbroken_render (hd : ∀ name ∈ d.shownNames, Unbroken name) {i : Instruction}
    (hi : i ∈ m.instructions) : Unbroken i.render := by
  have hvariables : ∀ v ∈ i.variables, Unbroken v.text := by
    intro v hv
    have hmem : v ∈ m.instructions.flatMap Instruction.variables := List.mem_flatMap.2 ⟨i, hi, hv⟩
    exact h.unbroken_text hd (List.mem_append_left _ (List.mem_append_right _ hmem))
  apply Instruction.unbroken_render hvariables
  intro name hn
  rw [h.instructions, mem_mapBefore] at hi
  obtain ⟨k, s, hs, rfl⟩ := hi
  rw [Description.Step.labels_instruction] at hn
  apply hd name
  exact List.mem_cons_of_mem _
    (List.mem_flatMap.2 ⟨s, List.mem_of_getElem? hs, List.mem_append_right _ hn⟩)

theorem unbroken_lines (hfile : Unbroken file) (hd : ∀ name ∈ d.shownNames, Unbroken name) :
    ∀ l ∈ (m.summary file).lines, Unbroken l := by
  have hname : Unbroken m.name := by
    rw [h.name]
    exact hd d.name List.mem_cons_self
  exact Method.unbroken_lines hfile hname (fun v hv => h.unbroken_text hd hv)
    fun i hi => h.unbroken_render hd hi

/-- Each step of the body has one line, after four on the method. -/
theorem shownBy (file : String) : m.ShownBy d file (m.summary file).lines where
  heading := by
    rw [← h.name, ← h.isInstance, ← h.line]
    rfl
  instructions := List.map_map
  length := by
    have hlength : m.instructions.length = d.body.length := by
      rw [h.instructions, length_mapBefore]
    rw [Summary.length_lines, Method.summary, List.length_map, hlength]

end Method.Translates

/-! Whole units. -/

/-- A text of unbroken lines has one block of them for each method. -/
theorem Report.hasLines_text {r : Report} (h : ∀ s ∈ r.methods, ∀ l ∈ s.lines, Unbroken l) :
    Text.HasLines r.text (r.methods.map Summary.lines).flatten := by
  have hlines : ∀ l ∈ r.methods.flatMap Summary.lines, Unbroken l := by
    intro l hl
    obtain ⟨s, hs, hl⟩ := List.mem_flatMap.1 hl
    exact h s hs l hl
  rw [← List.flatMap_def]
  exact Text.hasLines_join hlines

theorem mapM_eq_ok_of_forall₂ {α β ε : Type} {f : α → Except ε β} {as : List α} {bs : List β}
    (h : List.Forall₂ (fun a b => f a = .ok b) as bs) : as.mapM f = .ok bs := by
  induction h with
  | nil => rfl
  | cons h _ ih =>
    rw [List.mapM_cons, h, ih]
    rfl

namespace Description

variable {d : Description} {o : Options}

/-- The summaries of all methods of a unit. -/
def summaries (d : Description) (o : Options) : List Summary :=
  d.methods.mapIdx fun k dm => (d.methodAt o k dm).summary d.file

theorem summary?_arena (hsize : d.methods.length < 2 ^ 32) {k : Nat} {dm : Method}
    (hk : d.methods[k]? = some dm) :
    (d.arena o).summary? ⟨.ofNat (k + 1)⟩ = .ok ((d.methodAt o k dm).summary d.file) := by
  rw [Arena.summary?, method?_arena hsize hk]
  change ((d.arena o).fileName? ⟨0⟩ >>= _) = _
  rw [fileName?_arena]
  rfl

theorem mapM_summary?_arena (hsize : d.methods.length < 2 ^ 32) :
    ((d.root o).nextScopeIds d.methods.length).mapM (d.arena o).summary? = .ok (d.summaries o) := by
  apply mapM_eq_ok_of_forall₂
  rw [List.forall₂_iff_get]
  constructor
  · simp [Arena.nextScopeIds, summaries]
  · intro k hids hsummaries
    have hlt : k < d.methods.length := by simpa [summaries] using hsummaries
    have hid := (List.getElem?_eq_some_iff.1 (getElem?_nextScopeIds_root (o := o) hlt)).2
    have hsummary := summary?_arena (o := o) hsize (List.getElem?_eq_getElem hlt)
    rw [List.get_eq_getElem, List.get_eq_getElem, hid, hsummary]
    simp [summaries]

theorem getElem?_blocks {k : Nat} {dm : Method} (hk : d.methods[k]? = some dm) :
    ((d.summaries o).map Summary.lines)[k]? =
      some ((d.methodAt o k dm).summary d.file).lines := by
  simp [summaries, hk]

theorem length_blocks (hoff : d.offences = []) :
    ((d.summaries o).map Summary.lines).map List.length =
      d.methods.map fun dm => 4 + dm.body.length := by
  apply List.ext_getElem?
  intro k
  cases hk : d.methods[k]? with
  | none => simp [summaries, hk]
  | some dm =>
    have hshown := (translates_methodAt (o := o) hoff hk).shownBy d.file
    rw [List.getElem?_map, getElem?_blocks hk, List.getElem?_map, hk, Option.map_some,
      Option.map_some, hshown.length]

/-- Unless a name in the unit has a line feed, no line on its methods has one. -/
theorem unbroken_summaries (hoff : d.offences = []) (hd : ∀ name ∈ d.shownNames, Unbroken name) :
    ∀ s ∈ d.summaries o, ∀ l ∈ s.lines, Unbroken l := by
  intro s hs
  obtain ⟨k, hlt, rfl⟩ := List.mem_mapIdx.1 hs
  apply (translates_methodAt hoff (List.getElem?_eq_getElem hlt)).unbroken_lines
  · exact hd d.file List.mem_cons_self
  · intro name hn
    exact hd name (List.mem_cons_of_mem _ (List.mem_flatMap.2 ⟨_, List.getElem_mem hlt, hn⟩))

end Description

namespace Report

open Description (translates_methodAt getElem?_blocks)

variable {d : Description} {o : Options} {ids : List ScopeId} {a : Arena}

theorem ofSource_of_build {source : String} {summaries : List Summary}
    (hdecode : Json.decode Description.decoder source = .ok d) (hbuild : d.build o = .ok (ids, a))
    (hsummaries : ids.mapM a.summary? = .ok summaries) :
    ofSource source o = .ok ⟨hashOf source, summaries⟩ := by
  rw [ofSource, hdecode]
  change ((d.build o).mapError _ >>= _) = _
  rw [hbuild]
  change (ids.mapM (fun id => (a.summary? id).mapError _) >>= _) = _
  rw [mapM_mapError, hsummaries]
  rfl

/-- A unit has a source, and the text of the report on any source of it is one block of lines for each
method, in the order of the description, with one line for each step behind the first four. -/
theorem text_in_blocks (h : d.build o = .ok (ids, a))
    (hd : ∀ name ∈ d.shownNames, Unbroken name) :
    ∃ (summaries : List Summary) (blocks : List (List String)),
      ids.mapM a.summary? = .ok summaries ∧
      (∃ source, Json.decode Description.decoder source = .ok d) ∧
      (∀ source, Json.decode Description.decoder source = .ok d →
        ofSource source o = .ok ⟨hashOf source, summaries⟩) ∧
      (∀ hash, Text.HasLines (text ⟨hash, summaries⟩) blocks.flatten) ∧
      blocks.flatten.length = (d.methods.map fun dm => 4 + dm.body.length).sum ∧
      blocks.length = d.methods.length ∧
      ∀ (k : Nat) (dm : Description.Method), d.methods[k]? = some dm → ∃ id m block,
        ids[k]? = some id ∧ a.method? id = .ok m ∧ m.Translates dm ∧ blocks[k]? = some block ∧
        m.ShownBy dm d.file block := by
  have hbuild := h
  obtain ⟨hsize, hoff, rfl, rfl⟩ := Description.build_eq_ok h
  have hsummaries := Description.mapM_summary?_arena (o := o) hsize
  refine ⟨d.summaries o, (d.summaries o).map Summary.lines, hsummaries, ⟨_, d.decode_render⟩,
    ?_, ?_, ?_, ?_, ?_⟩
  · intro source hdecode
    exact ofSource_of_build hdecode hbuild hsummaries
  · intro hash
    exact hasLines_text (d.unbroken_summaries hoff hd)
  · rw [List.length_flatten, Description.length_blocks hoff]
  · simp [Description.summaries]
  · intro k dm hk
    have hlt := (List.getElem?_eq_some_iff.1 hk).1
    have ht : (d.methodAt o k dm).Translates dm := translates_methodAt hoff hk
    exact ⟨_, _, _, Description.getElem?_nextScopeIds_root hlt, Description.method?_arena hsize hk,
      ht, getElem?_blocks hk, ht.shownBy d.file⟩

/-- A method without a body, then one with line feeds and quotes in its parameter and in a text. -/
theorem text_in_blocks_breaks :
    let g : Description.Method := ⟨"g", 7, false, false, [⟨"rest", "\n\""⟩],
      [.call none "puts" [.text "\n\"]"], .giveBack (some (.variable "x"))]⟩
    let d : Description := ⟨"a.rb", [⟨"f", 1, true, false, [], []⟩, g]⟩
    (∀ name ∈ d.shownNames, Unbroken name) ∧ ∃ source, ∃ (r : Report) (blocks : List (List String)),
      Json.decode Description.decoder source = .ok d ∧ ofSource source .default = .ok r ∧
      Text.HasLines r.text blocks.flatten ∧ blocks.flatten.length = 10 ∧
      ∃ block : List String, blocks[1]? = some block ∧
        block[0]? = some "Method g (singleton) at a.rb:7" ∧
        block.drop 4 = ["    %v_0 = call(%self, puts, [\"\\n\\\"]\"])", "    return(x)"] := by
  intro g d
  have hd : ∀ name ∈ d.shownNames, Unbroken name := by decide
  have hbuilt : ∃ ids a, d.build .default = .ok (ids, a) := ⟨_, _, rfl⟩
  obtain ⟨ids, a, h⟩ := hbuilt
  obtain ⟨summaries, blocks, -, ⟨source, hsource⟩, hreport, hlines, hcount, -, hblocks⟩ :=
    text_in_blocks h hd
  obtain ⟨id, m, block, -, -, ht, hblock, hshown⟩ := hblocks 1 g rfl
  have hheading : "Method " ++ g.name ++ " (" ++ (if g.isInstance then "instance" else "singleton") ++
      ") at " ++ d.file ++ ":" ++ toString g.line = "Method g (singleton) at a.rb:7" := by decide
  have hcall : "    " ++ (Instruction.call (.ofTemporary ⟨0⟩) .self "puts" [.text "\n\"]"]).render =
      "    %v_0 = call(%self, puts, [\"\\n\\\"]\"])" := by decide +kernel
  refine ⟨hd, source, _, blocks, hsource, hreport source hsource, hlines _, hcount, block, hblock,
    ?_, ?_⟩
  · rw [hshown.heading, hheading]
  · rw [hshown.instructions, ht.instructions]
    exact congrArg (· :: ["    return(x)"]) hcall

end Report

end MethodIR
