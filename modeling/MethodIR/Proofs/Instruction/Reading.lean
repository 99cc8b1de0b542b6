import MethodIR.Proofs.Instruction.Words

/-!
The text of an instruction says which instruction it is, but for where its named variables live. Its
tokens are told apart in the text, its operation is the first word after the result, and each of its
operands ends where its word or its quoted text ends.
-/
namespace MethodIR

open Json (Stops stops_cons)
open Token

namespace Operand

def mapVariable (f : Variable → Variable) : Operand → Operand
  | .variable v => .variable (f v)
  | .splat inner => .splat (inner.mapVariable f)
  | .nil => .nil
  | .fixnum n => .fixnum n
  | .text s => .text s
  | .self => .self

def bare (x : Operand) : Operand := x.mapVariable Variable.bare

def isPlain (x : Operand) : Bool := x.named?.all Variable.isPlain

/-- A star for each splat, then a quoted text or a word. -/
def tokens : Operand → List Token
  | .splat inner => .sign '*' :: inner.tokens
  | .text s => [.quote s]
  | x => [.word x.render]

/-- The operands that are shown as one word. -/
def isAtom : Operand → Bool
  | .splat _ | .text _ => false
  | _ => true

variable {x y : Operand} {ts us : List Token}

theorem tokens_of_isAtom (h : x.isAtom) : x.tokens = [.word x.render] := by
  cases x with
  | splat | text => cases h
  | «variable» | nil | fixnum | self => rfl

theorem isWord_render (h : x.isAtom) (hx : x.isPlain) : IsWord x.render := by
  cases x with
  | splat | text => cases h
  | «variable» v => exact isWord_text hx
  | nil | self => exact isWord_of_all (by decide) (by decide)
  | fixnum n => exact isWord_toString_int n.toInt

theorem textOf_tokens (x : Operand) : textOf x.tokens = x.render.toList := by
  induction x with
  | splat inner ih =>
    rw [tokens, textOf_cons, ih, render, String.toList_append]
    rfl
  | text s =>
    rw [tokens, textOf_cons, textOf_nil, List.append_nil, render, Text.toList_quoted]
    rfl
  | «variable» | nil | fixnum | self =>
    rw [tokens_of_isAtom rfl, textOf_cons, textOf_nil, List.append_nil]
    rfl

theorem apart_tokens (hx : x.isPlain) (hstop : Stops isWordChar (textOf ts)) (h : Apart ts) :
    Apart (x.tokens ++ ts) := by
  induction x with
  | splat inner ih => exact ⟨rfl, by decide, ih hx⟩
  | text s => exact h
  | «variable» | nil | fixnum | self => exact ⟨isWord_render rfl hx, hstop, h⟩

/-- Words of operands differ unless the operands are the same but for depths and slots. -/
theorem bare_of_render (hx : x.isPlain) (hy : y.isPlain) (hxa : x.isAtom) (hya : y.isAtom)
    (h : x.render = y.render) : x.bare = y.bare := by
  cases x with
  | splat | text => cases hxa
  | «variable» v =>
    cases y with
    | splat | text => cases hya
    | «variable» w => exact congrArg Operand.variable (bare_of_text hx hy h)
    | nil => exact absurd h (text_ne_nil hx)
    | fixnum m => exact absurd h.symm (text_ne_toString hx m.toInt)
    | self => exact absurd h (text_ne_self hx)
  | nil =>
    cases y with
    | splat | text => cases hya
    | «variable» w => exact absurd h.symm (text_ne_nil hy)
    | nil => rfl
    | fixnum m => exact absurd h.symm (toString_int_ne rfl (by decide) (by decide))
    | self => exact absurd h (by decide)
  | fixnum n =>
    cases y with
    | splat | text => cases hya
    | «variable» w => exact absurd h (text_ne_toString hy n.toInt)
    | nil => exact absurd h (toString_int_ne rfl (by decide) (by decide))
    | fixnum m => exact congrArg Operand.fixnum (Int64.toInt_inj.1 (toString_int_inj h))
    | self => exact absurd h (toString_int_ne rfl (by decide) (by decide))
  | self =>
    cases y with
    | splat | text => cases hya
    | «variable» w => exact absurd h.symm (text_ne_self hy)
    | nil => exact absurd h (by decide)
    | fixnum m => exact absurd h.symm (toString_int_ne rfl (by decide) (by decide))
    | self => rfl

/-- An operand ends at the same place in two sequences of tokens that start with one. -/
theorem tokens_append_inj (hx : x.isPlain) (hy : y.isPlain)
    (h : x.tokens ++ ts = y.tokens ++ us) : x.bare = y.bare ∧ ts = us := by
  have hatoms : ∀ {x y : Operand}, x.isPlain → y.isPlain → x.isAtom → y.isAtom →
      x.tokens ++ ts = y.tokens ++ us → x.bare = y.bare ∧ ts = us := by
    intro x y hx hy hxa hya h
    rw [tokens_of_isAtom hxa, tokens_of_isAtom hya] at h
    obtain ⟨hword, hrest⟩ := List.cons.inj h
    exact ⟨bare_of_render hx hy hxa hya (Token.word.inj hword), hrest⟩
  induction x generalizing y with
  | splat inner ih =>
    cases y with
    | splat inner' =>
      have hy : inner'.isPlain := hy
      have htail : inner.tokens ++ ts = inner'.tokens ++ us := (List.cons.inj h).2
      obtain ⟨hinner, hrest⟩ := ih hx hy htail
      exact ⟨congrArg Operand.splat hinner, hrest⟩
    | text | «variable» | nil | fixnum | self => cases (List.cons.inj h).1
  | text s =>
    cases y with
    | text s' =>
      obtain ⟨hquote, hrest⟩ := List.cons.inj h
      exact ⟨congrArg Operand.text (Token.quote.inj hquote), hrest⟩
    | splat | «variable» | nil | fixnum | self => cases (List.cons.inj h).1
  | «variable» | nil | fixnum | self =>
    cases y with
    | splat | text => cases (List.cons.inj h).1
    | «variable» | nil | fixnum | self => exact hatoms hx hy rfl rfl h

/-- No operand starts with a bracket. -/
theorem tokens_append_ne_sign (x : Operand) : x.tokens ++ ts ≠ .sign ']' :: us := by
  intro h
  cases x with
  | splat => cases (List.cons.inj h).1
  | text | «variable» | nil | fixnum | self => cases (List.cons.inj h).1

/-! Operands between brackets. -/

/-- Operands that each follow a comma, and the bracket after them. -/
def moreTokens (ts : List Token) : List Operand → List Token
  | [] => .sign ']' :: ts
  | x :: xs => .sign ',' :: .sign ' ' :: (x.tokens ++ moreTokens ts xs)

/-- Operands with commas between them, and the bracket after them. -/
def listTokens (ts : List Token) : List Operand → List Token
  | [] => .sign ']' :: ts
  | x :: xs => x.tokens ++ moreTokens ts xs

variable {xs ys : List Operand}

theorem textOf_moreTokens (x : Operand) (xs : List Operand) :
    x.render.toList ++ textOf (moreTokens ts xs) =
      (", ".intercalate ((x :: xs).map render)).toList ++ ']' :: textOf ts := by
  induction xs generalizing x with
  | nil => rw [List.map_singleton, String.intercalate_singleton, moreTokens, textOf_cons,
      Token.text, List.singleton_append]
  | cons y xs ih =>
    have hseparated : (", ".intercalate ((x :: y :: xs).map render)).toList =
        x.render.toList ++ ", ".toList ++ (", ".intercalate ((y :: xs).map render)).toList := by
      simp only [String.toList_intercalate, List.map_cons, List.intercalate_cons_cons]
    rw [hseparated, List.append_assoc, ← ih y, moreTokens, textOf_cons, textOf_cons, textOf_append,
      textOf_tokens, List.append_assoc]
    rfl

theorem textOf_listTokens (xs : List Operand) : textOf (listTokens ts xs) =
    (", ".intercalate (xs.map render)).toList ++ ']' :: textOf ts := by
  cases xs with
  | nil => rfl
  | cons x xs => rw [listTokens, textOf_append, textOf_tokens, textOf_moreTokens]

theorem apart_moreTokens (hxs : ∀ x ∈ xs, x.isPlain) (h : Apart ts) :
    Apart (moreTokens ts xs) ∧ Stops isWordChar (textOf (moreTokens ts xs)) := by
  induction xs with
  | nil => exact ⟨⟨rfl, by decide, h⟩, stops_cons rfl _⟩
  | cons x xs ih =>
    have hx := hxs x List.mem_cons_self
    obtain ⟨hrest, hstop⟩ := ih fun y hy => hxs y (List.mem_cons_of_mem x hy)
    exact ⟨⟨rfl, by decide, rfl, by decide, apart_tokens hx hstop hrest⟩, stops_cons rfl _⟩

theorem apart_listTokens (hxs : ∀ x ∈ xs, x.isPlain) (h : Apart ts) :
    Apart (listTokens ts xs) := by
  cases xs with
  | nil => exact ⟨rfl, by decide, h⟩
  | cons x xs =>
    have hx := hxs x List.mem_cons_self
    obtain ⟨hrest, hstop⟩ := apart_moreTokens (fun y hy => hxs y (List.mem_cons_of_mem x hy)) h
    exact apart_tokens hx hstop hrest

theorem moreTokens_inj (hxs : ∀ x ∈ xs, x.isPlain) (hys : ∀ y ∈ ys, y.isPlain)
    (h : moreTokens ts xs = moreTokens us ys) : xs.map bare = ys.map bare ∧ ts = us := by
  induction xs generalizing ys with
  | nil =>
    cases ys with
    | nil => exact ⟨rfl, (List.cons.inj h).2⟩
    | cons y ys => cases (List.cons.inj h).1
  | cons x xs ih =>
    cases ys with
    | nil => cases (List.cons.inj h).1
    | cons y ys =>
      have htail : x.tokens ++ moreTokens ts xs = y.tokens ++ moreTokens us ys :=
        (List.cons.inj (List.cons.inj h).2).2
      obtain ⟨hxy, hrest⟩ :=
        tokens_append_inj (hxs x List.mem_cons_self) (hys y List.mem_cons_self) htail
      obtain ⟨hmap, htsus⟩ := ih (fun z hz => hxs z (List.mem_cons_of_mem x hz))
        (fun z hz => hys z (List.mem_cons_of_mem y hz)) hrest
      exact ⟨List.cons_eq_cons.2 ⟨hxy, hmap⟩, htsus⟩

theorem listTokens_inj (hxs : ∀ x ∈ xs, x.isPlain) (hys : ∀ y ∈ ys, y.isPlain)
    (h : listTokens ts xs = listTokens us ys) : xs.map bare = ys.map bare ∧ ts = us := by
  cases xs with
  | nil =>
    cases ys with
    | nil => exact ⟨rfl, (List.cons.inj h).2⟩
    | cons y ys => exact absurd h.symm (tokens_append_ne_sign y)
  | cons x xs =>
    cases ys with
    | nil => exact absurd h (tokens_append_ne_sign x)
    | cons y ys =>
      obtain ⟨hxy, hrest⟩ :=
        tokens_append_inj (hxs x List.mem_cons_self) (hys y List.mem_cons_self) h
      obtain ⟨hmap, htsus⟩ := moreTokens_inj (fun z hz => hxs z (List.mem_cons_of_mem x hz))
        (fun z hz => hys z (List.mem_cons_of_mem y hz)) hrest
      exact ⟨List.cons_eq_cons.2 ⟨hxy, hmap⟩, htsus⟩

end Operand

namespace Instruction

def mapVariables (f : Variable → Variable) : Instruction → Instruction
  | .receiveRequired v index => .receiveRequired (f v) index
  | .receiveOptional v index least => .receiveOptional (f v) index least
  | .receiveKeyword v name => .receiveKeyword (f v) name
  | .receivePost v index before => .receivePost (f v) index before
  | .receiveRest v index => .receiveRest (f v) index
  | .receiveBlock v => .receiveBlock (f v)
  | .receiveSelf v => .receiveSelf (f v)
  | .copy v value => .copy (f v) (value.mapVariable f)
  | .call v receiver name args =>
    .call (f v) (receiver.mapVariable f) name (args.map (Operand.mapVariable f))
  | .giveBack value => .giveBack (value.mapVariable f)
  | .line number => .line number

def bare (i : Instruction) : Instruction := i.mapVariables Variable.bare

/-- The names of keywords and callees. -/
def labels : Instruction → List String
  | .receiveKeyword _ name | .call _ _ name _ => [name]
  | _ => []

/-- All names in the instruction are plain. -/
def isPlain (i : Instruction) : Bool :=
  i.variables.all Variable.isPlain && i.labels.all isIdentifier

def opcode : Instruction → String
  | .receiveRequired .. => "recv_pre_reqd_arg"
  | .receiveOptional .. => "recv_opt_arg"
  | .receiveKeyword .. => "recv_kw_arg"
  | .receivePost .. => "recv_post_reqd_arg"
  | .receiveRest .. => "recv_rest_arg"
  | .receiveBlock .. => "recv_closure"
  | .receiveSelf .. => "recv_self"
  | .copy .. => "copy"
  | .call .. => "call"
  | .giveBack .. => "return"
  | .line .. => "line_num"

def leadTokens : Option Variable → List Token
  | some v => [.word v.text, .sign ' ', .sign '=', .sign ' ']
  | none => []

def number (n : UInt32) : Token := .word (toString n)

def argumentTokens : Instruction → List Token
  | .receiveRequired _ index | .receiveRest _ index => [.sign '(', number index, .sign ')']
  | .receiveOptional _ index least =>
    [.sign '(', number index, .sign ',', .sign ' ', .word "min", .sign '=', number least, .sign ')']
  | .receiveKeyword _ name => [.sign '(', .word name, .sign ')']
  | .receivePost _ index before =>
    [.sign '(', number index, .sign ',', .sign ' ', .word "pre", .sign '=', number before, .sign ')']
  | .receiveBlock _ | .receiveSelf _ => []
  | .copy _ value | .giveBack value => .sign '(' :: (value.tokens ++ [.sign ')'])
  | .call _ receiver name args =>
    .sign '(' :: (receiver.tokens ++ .sign ',' :: .sign ' ' :: .word name :: .sign ',' :: .sign ' ' ::
      .sign '[' :: Operand.listTokens [.sign ')'] args)
  | .line n => [.sign '(', number n, .sign ')']

def tokens (i : Instruction) : List Token :=
  leadTokens i.result? ++ .word i.opcode :: i.argumentTokens

variable {i j : Instruction}

theorem textOf_leadTokens_some (v : Variable) :
    textOf (leadTokens (some v)) = v.text.toList ++ " = ".toList := by
  simp [leadTokens, textOf_cons, textOf_nil, Token.text]

theorem textOf_tokens (i : Instruction) : textOf i.tokens = i.render.toList := by
  rw [tokens, textOf_append, textOf_cons]
  cases i with
  | receiveRequired | receiveOptional | receiveKeyword | receivePost | receiveRest | receiveBlock
  | receiveSelf =>
    simp [result?, opcode, argumentTokens, number, render, textOf_leadTokens_some, textOf_cons,
      textOf_nil, Token.text]
  | copy v value =>
    simp [result?, opcode, argumentTokens, render, textOf_leadTokens_some, textOf_cons,
      textOf_append, Operand.textOf_tokens, textOf_nil, Token.text]
  | call v receiver name args =>
    simp [result?, opcode, argumentTokens, render, textOf_leadTokens_some, textOf_cons,
      textOf_append, Operand.textOf_tokens, Operand.textOf_listTokens, textOf_nil, Token.text]
  | giveBack value =>
    simp [result?, opcode, argumentTokens, render, leadTokens, textOf_cons, textOf_append,
      Operand.textOf_tokens, textOf_nil, Token.text]
  | line n =>
    simp [result?, opcode, argumentTokens, number, render, leadTokens, textOf_cons, textOf_nil,
      Token.text]

/-! The tokens are apart. -/

theorem isPlain_iff : i.isPlain ↔
    (∀ v ∈ i.variables, v.isPlain) ∧ ∀ name ∈ i.labels, isIdentifier name := by
  simp [isPlain]

theorem isPlain_operand (h : i.isPlain) {x : Operand} (hx : x ∈ i.operands) : x.isPlain := by
  obtain ⟨hvariables, -⟩ := isPlain_iff.1 h
  rw [Operand.isPlain]
  cases hv : x.named? with
  | none => rfl
  | some v =>
    have hmem : v ∈ i.operands.filterMap Operand.named? := List.mem_filterMap.2 ⟨x, hx, hv⟩
    exact hvariables v (List.mem_append_left _ hmem)

theorem isPlain_result (h : i.isPlain) {v : Variable} (hv : i.result? = some v) : v.isPlain := by
  obtain ⟨hvariables, -⟩ := isPlain_iff.1 h
  exact hvariables v (List.mem_append_right _ (Option.mem_toList.2 hv))

theorem isPlain_label (h : i.isPlain) {name : String} (hn : name ∈ i.labels) :
    isIdentifier name := (isPlain_iff.1 h).2 name hn

theorem isWord_opcode (i : Instruction) : IsWord i.opcode := by
  apply isWord_of_isIdentifier
  cases i <;> rw [opcode] <;> decide

theorem apart_word_sign {w : String} {c : Char} {ts : List Token} (hw : IsWord w)
    (hc : isWordChar c = false) (h : Apart (.sign c :: ts)) : Apart (.word w :: .sign c :: ts) :=
  ⟨hw, stops_cons hc _, h⟩

theorem apart_argumentTokens (h : i.isPlain) :
    Apart i.argumentTokens ∧ Stops isWordChar (textOf i.argumentTokens) := by
  have hclose : Apart [.sign ')'] := ⟨rfl, by decide, trivial⟩
  cases i with
  | receiveBlock | receiveSelf =>
    refine ⟨trivial, ?_⟩
    intro c hc
    cases hc
  | receiveRequired _ n | receiveRest _ n | line n =>
    refine ⟨⟨rfl, by decide, ?_⟩, stops_cons rfl _⟩
    exact apart_word_sign (isWord_toString n) rfl hclose
  | receiveKeyword v name =>
    refine ⟨⟨rfl, by decide, ?_⟩, stops_cons rfl _⟩
    exact apart_word_sign (isWord_of_isIdentifier (isPlain_label h List.mem_cons_self)) rfl hclose
  | receiveOptional _ n m | receivePost _ n m =>
    refine ⟨⟨rfl, by decide, ?_⟩, stops_cons rfl _⟩
    have hleast := apart_word_sign (isWord_toString m) rfl hclose
    refine apart_word_sign (isWord_toString n) rfl ⟨rfl, by decide, rfl, by decide, ?_⟩
    exact apart_word_sign (isWord_of_all (by decide) (by decide)) rfl ⟨rfl, by decide, hleast⟩
  | copy _ value | giveBack value =>
    refine ⟨⟨rfl, by decide, ?_⟩, stops_cons rfl _⟩
    have hvalue : value.isPlain := isPlain_operand h List.mem_cons_self
    exact Operand.apart_tokens hvalue (stops_cons rfl _) hclose
  | call v receiver name args =>
    refine ⟨⟨rfl, by decide, ?_⟩, stops_cons rfl _⟩
    have hreceiver : receiver.isPlain := isPlain_operand h List.mem_cons_self
    have hargs : ∀ x ∈ args, x.isPlain :=
      fun x hx => isPlain_operand h (List.mem_cons_of_mem receiver hx)
    have hname := isWord_of_isIdentifier (isPlain_label h List.mem_cons_self)
    have hlist : Apart (Operand.listTokens [.sign ')'] args) := Operand.apart_listTokens hargs hclose
    refine Operand.apart_tokens hreceiver (stops_cons rfl _) ⟨rfl, by decide, rfl, by decide, ?_⟩
    exact apart_word_sign hname rfl ⟨rfl, by decide, rfl, by decide, rfl, by decide, hlist⟩

theorem apart_tokens (h : i.isPlain) : Apart i.tokens := by
  obtain ⟨hargs, hstop⟩ := apart_argumentTokens h
  have hoperation : Apart (.word i.opcode :: i.argumentTokens) := ⟨isWord_opcode i, hstop, hargs⟩
  rw [tokens]
  cases hresult : i.result? with
  | none => exact hoperation
  | some v =>
    have hv : v.isPlain := isPlain_result h hresult
    exact apart_word_sign (isWord_text hv) rfl
      ⟨rfl, by decide, rfl, by decide, rfl, by decide, hoperation⟩

/-! The tokens determine the instruction. -/

theorem number_inj {n m : UInt32} (h : number n = number m) : n = m := toString_inj (word.inj h)

/-- An instruction without a result has its operands in parentheses right after its operation. -/
theorem argumentTokens_of_no_result (h : i.result? = none) :
    ∃ ts, i.argumentTokens = .sign '(' :: ts := by
  cases i with
  | giveBack | line => exact ⟨_, rfl⟩
  | _ => cases h

theorem tokens_cases (hi : i.isPlain) (hj : j.isPlain) (h : i.tokens = j.tokens) :
    i.result?.map Variable.bare = j.result?.map Variable.bare ∧ i.opcode = j.opcode ∧
      i.argumentTokens = j.argumentTokens := by
  unfold tokens at h
  have hmixed : ∀ {i j : Instruction} {v : Variable}, i.result? = none → j.result? = some v →
      leadTokens i.result? ++ .word i.opcode :: i.argumentTokens ≠
        leadTokens j.result? ++ .word j.opcode :: j.argumentTokens := by
    intro i j v hi hj h
    obtain ⟨ts, hts⟩ := argumentTokens_of_no_result hi
    rw [hi, hj, hts] at h
    cases (List.cons.inj (List.cons.inj h).2).1
  cases hv : i.result? with
  | none =>
    cases hw : j.result? with
    | none =>
      rw [hv, hw] at h
      obtain ⟨hop, hargs⟩ := List.cons.inj h
      exact ⟨rfl, word.inj hop, hargs⟩
    | some w => exact absurd h (hmixed hv hw)
  | some v =>
    cases hw : j.result? with
    | none => exact absurd h.symm (hmixed hw hv)
    | some w =>
      rw [hv, hw] at h
      simp only [leadTokens, List.cons_append, List.nil_append, List.cons.injEq, true_and,
        word.injEq] at h
      obtain ⟨htext, hop, hargs⟩ := h
      have hbare := bare_of_text (isPlain_result hi hv) (isPlain_result hj hw) htext
      exact ⟨congrArg some hbare, hop, hargs⟩

theorem value_of_argumentTokens {x y : Operand} (hx : x.isPlain) (hy : y.isPlain)
    (h : Token.sign '(' :: (x.tokens ++ [.sign ')']) = .sign '(' :: (y.tokens ++ [.sign ')'])) :
    x.bare = y.bare :=
  (Operand.tokens_append_inj hx hy (List.cons.inj h).2).1

/-- The same operation with the same arguments is the same instruction. -/
theorem bare_of_tokens (hi : i.isPlain) (hj : j.isPlain) (h : i.tokens = j.tokens) :
    i.bare = j.bare := by
  obtain ⟨hresult, hop, hargs⟩ := tokens_cases hi hj h
  cases i with
  | receiveRequired v n =>
    cases j with
    | receiveRequired w m =>
      have hvw : v.bare = w.bare := Option.some.inj hresult
      simp only [argumentTokens, List.cons.injEq, true_and, and_true] at hargs
      simp [bare, mapVariables, hvw, number_inj hargs]
    | _ => simp [opcode] at hop
  | receiveOptional v n least =>
    cases j with
    | receiveOptional w m least' =>
      have hvw : v.bare = w.bare := Option.some.inj hresult
      simp only [argumentTokens, List.cons.injEq, true_and, and_true] at hargs
      simp [bare, mapVariables, hvw, number_inj hargs.1, number_inj hargs.2]
    | _ => simp [opcode] at hop
  | receiveKeyword v name =>
    cases j with
    | receiveKeyword w name' =>
      have hvw : v.bare = w.bare := Option.some.inj hresult
      simp only [argumentTokens, List.cons.injEq, true_and, and_true, word.injEq] at hargs
      simp [bare, mapVariables, hvw, hargs]
    | _ => simp [opcode] at hop
  | receivePost v n before =>
    cases j with
    | receivePost w m before' =>
      have hvw : v.bare = w.bare := Option.some.inj hresult
      simp only [argumentTokens, List.cons.injEq, true_and, and_true] at hargs
      simp [bare, mapVariables, hvw, number_inj hargs.1, number_inj hargs.2]
    | _ => simp [opcode] at hop
  | receiveRest v n =>
    cases j with
    | receiveRest w m =>
      have hvw : v.bare = w.bare := Option.some.inj hresult
      simp only [argumentTokens, List.cons.injEq, true_and, and_true] at hargs
      simp [bare, mapVariables, hvw, number_inj hargs]
    | _ => simp [opcode] at hop
  | receiveBlock v =>
    cases j with
    | receiveBlock w => exact congrArg receiveBlock (Option.some.inj hresult)
    | _ => simp [opcode] at hop
  | receiveSelf v =>
    cases j with
    | receiveSelf w => exact congrArg receiveSelf (Option.some.inj hresult)
    | _ => simp [opcode] at hop
  | copy v x =>
    cases j with
    | copy w y =>
      have hvw : v.bare = w.bare := Option.some.inj hresult
      have hx : x.isPlain := isPlain_operand hi List.mem_cons_self
      have hy : y.isPlain := isPlain_operand hj List.mem_cons_self
      have hxy : x.bare = y.bare := value_of_argumentTokens hx hy hargs
      change copy v.bare x.bare = copy w.bare y.bare
      rw [hvw, hxy]
    | _ => simp [opcode] at hop
  | call v x name xs =>
    cases j with
    | call w y name' ys =>
      have hvw : v.bare = w.bare := Option.some.inj hresult
      have hx : x.isPlain := isPlain_operand hi List.mem_cons_self
      have hy : y.isPlain := isPlain_operand hj List.mem_cons_self
      have hxs : ∀ z ∈ xs, z.isPlain :=
        fun z hz => isPlain_operand hi (List.mem_cons_of_mem x hz)
      have hys : ∀ z ∈ ys, z.isPlain :=
        fun z hz => isPlain_operand hj (List.mem_cons_of_mem y hz)
      obtain ⟨hxy, hrest⟩ := Operand.tokens_append_inj hx hy (List.cons.inj hargs).2
      simp only [List.cons.injEq, true_and, word.injEq] at hrest
      obtain ⟨hname, hlist⟩ := hrest
      obtain ⟨hmap, -⟩ := Operand.listTokens_inj hxs hys hlist
      change call v.bare x.bare name (xs.map Operand.bare) =
        call w.bare y.bare name' (ys.map Operand.bare)
      rw [hvw, hxy, hname, hmap]
    | _ => simp [opcode] at hop
  | giveBack x =>
    cases j with
    | giveBack y =>
      have hx : x.isPlain := isPlain_operand hi List.mem_cons_self
      have hy : y.isPlain := isPlain_operand hj List.mem_cons_self
      exact congrArg giveBack (value_of_argumentTokens hx hy hargs)
    | _ => simp [opcode] at hop
  | line n =>
    cases j with
    | line m =>
      simp only [argumentTokens, List.cons.injEq, true_and, and_true] at hargs
      exact congrArg line (number_inj hargs)
    | _ => simp [opcode] at hop

end Instruction

end MethodIR
