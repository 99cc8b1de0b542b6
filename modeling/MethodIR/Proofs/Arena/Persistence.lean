import MethodIR.Proofs.Arena.Lineage

/-!
What stays as it is while operations go on. A scope keeps its id, its kind and its header, its
streams only get longer, and a name that is bound or interned keeps its variable or its file. Of a
static scope only the link may change, to another scope.
-/
namespace MethodIR

/-- The names that are bound in a frame have their variables in a longer one, in the same order. -/
theorem Scope.Extends.locals {s s' : Scope} (h : s.Extends s') :
    (∀ name v, s.frame.locals.find? name = some v → s'.frame.locals.find? name = some v) ∧
      s.frame.locals.toList <+: s'.frame.locals.toList := by
  have hnames : s.frame.locals.names <+: s'.frame.locals.names := by
    cases h with
    | script h => exact h.names
    | method h => exact h.frame.names
  exact ⟨fun name v => VariableTable.find?_of_longer hnames,
    VariableTable.toList_of_longer hnames⟩

theorem StaticScope.link_eq (ss : StaticScope) (o : Options) (id : ScopeId) :
    ss.link o id = { ss with scope := if o.irGenOnly then ss.scope else some id } := by
  unfold link
  split <;> rfl

/-- The options of `a` hold in `a'`, and its static scopes are there under their ids. A link that is
there may only be replaced by another one. -/
structure Arena.Keeps (a a' : Arena) : Prop where
  options : a'.options = a.options
  staticScope : ∀ sid ss, a.staticScope? sid = some ss → ∃ link,
    a'.staticScope? sid = some { ss with scope := link } ∧ (ss.scope.isSome → link.isSome)

namespace Arena

variable {a a' a'' : Arena} {op : Operation} {reply : Reply}

theorem keeps_refl (a : Arena) : a.Keeps a where
  options := rfl
  staticScope _ ss hss := ⟨ss.scope, hss, id⟩

theorem Keeps.trans (h : a.Keeps a') (h' : a'.Keeps a'') : a.Keeps a'' where
  options := h'.options.trans h.options
  staticScope sid ss hss := by
    obtain ⟨link, hlink, hsome⟩ := h.staticScope sid ss hss
    obtain ⟨link', hlink', hsome'⟩ := h'.staticScope sid _ hlink
    exact ⟨link', hlink', fun hs => hsome' (hsome hs)⟩

theorem Change.keeps (h : a.Change op reply a') : a.Keeps a' := by
  cases h with
  | newScript | missing | extended => exact ⟨rfl, (keeps_refl a).staticScope⟩
  | newStaticScope =>
    refine ⟨rfl, fun sid ss hss => ⟨ss.scope, ?_, id⟩⟩
    have hlt := (List.getElem?_eq_some_iff.1 hss).1
    exact (List.getElem?_append_left hlt).trans hss
  | @newMethod _ p _ _ _ staticScope hp hs =>
    refine ⟨rfl, fun sid ss hss => ?_⟩
    have hlink := a.getElem?_linkStatic a.nextScopeId staticScope sid
    rw [hss, Option.map_some] at hlink
    by_cases hsid : staticScope = some sid
    · rw [if_pos hsid, ss.link_eq] at hlink
      refine ⟨_, hlink, fun hsome => ?_⟩
      split
      · exact hsome
      · rfl
    · rw [if_neg hsid] at hlink
      exact ⟨ss.scope, hlink, id⟩

theorem perform_keeps (a : Arena) (op : Operation) : a.Keeps (a.perform op).2 := by
  unfold perform
  split
  · rename_i hr
    exact (change_of_attempt hr).keeps
  · exact keeps_refl a

theorem run_keeps (a : Arena) (ops : List Operation) : a.Keeps (a.run ops).2 := by
  induction ops generalizing a with
  | nil => exact keeps_refl a
  | cons op ops ih => exact (a.perform_keeps op).trans (ih (a.perform op).2)

/-- Whatever operations follow, failing or not: each scope is still there under its id, with the
same kind, header and flags, and what it held stands first in what it holds; names keep their
variables, files keep their ids and their names, and of a static scope nothing but the link has
changed. -/
theorem run_persistence (a : Arena) (ops : List Operation) :
    let a' := (a.run ops).2
    a'.options = a.options ∧
    (∀ id s, a.scope? id = some s → ∃ s', a'.scope? id = some s' ∧ s.Extends s' ∧
      s'.kind = s.kind ∧ s'.header = s.header ∧
      (∀ name v, s.frame.locals.find? name = some v → s'.frame.locals.find? name = some v) ∧
      s.frame.locals.toList <+: s'.frame.locals.toList) ∧
    (∀ f name, a.fileName? f = .ok name →
      a'.fileName? f = .ok name ∧ a'.files.internFile name = (f, a'.files)) ∧
    ∀ sid ss, a.staticScope? sid = some ss → ∃ link,
      a'.staticScope? sid = some { ss with scope := link } ∧ (ss.scope.isSome → link.isSome) := by
  intro a'
  have hgrow : a.Extends a' := a.run_grows ops
  have hkeep : a.Keeps a' := a.run_keeps ops
  refine ⟨hkeep.options, ?_, ?_, hkeep.staticScope⟩
  · intro id s hs
    obtain ⟨s', hs', he⟩ := hgrow.scope _ _ hs
    have hkind : s'.kind = s.kind := by cases he <;> rfl
    exact ⟨s', hs', he, hkind, he.header_eq, he.locals⟩
  · intro f name hf
    have hname : a'.fileName? f = .ok name := hgrow.fileName? hf
    exact ⟨hname, StringTable.internFile_of_file? (fileName?_eq_ok_iff.1 hname)⟩

/-- A script with a bound name, its file and a linked static scope, before another method is created
for that static scope. -/
theorem run_persistence_relinked :
    let a := ((new .default).run [.newScript "a.rb" 1, .request ⟨0⟩ "x" 0, .newStaticScope,
      .newMethod ⟨0⟩ "f" true 2 (some ⟨0⟩)]).2
    let a' := (a.run [.request ⟨0⟩ "y" 0, .newMethod ⟨0⟩ "g" true 3 (some ⟨0⟩),
      .newScript "b.rb" 1]).2
    a.scopeForStatic? ⟨0⟩ = some ⟨1⟩ ∧ a'.scopeForStatic? ⟨0⟩ = some ⟨2⟩ ∧
      (∃ s s', a.scope? ⟨0⟩ = some s ∧ a'.scope? ⟨0⟩ = some s' ∧ s'.header = s.header ∧
        s'.frame.locals.find? "x" = some ⟨"x", 0, 0⟩) ∧
      a'.fileName? ⟨0⟩ = .ok "a.rb" ∧
      ∃ link, a'.staticScope? ⟨0⟩ = some ⟨⟨0⟩, link⟩ ∧ link.isSome := by
  intro a a'
  obtain ⟨-, hscopes, hfiles, hstatic⟩ := run_persistence a
    [.request ⟨0⟩ "y" 0, .newMethod ⟨0⟩ "g" true 3 (some ⟨0⟩), .newScript "b.rb" 1]
  have hscope : ∃ s, a.scope? ⟨0⟩ = some s := ⟨_, rfl⟩
  obtain ⟨s, hs⟩ := hscope
  obtain ⟨s', hs', -, -, hheader, hlocals, -⟩ := hscopes ⟨0⟩ s hs
  obtain ⟨link, hlink, hsome⟩ := hstatic ⟨0⟩ ⟨⟨0⟩, some ⟨1⟩⟩ rfl
  refine ⟨rfl, rfl, ⟨s, s', hs, hs', hheader, ?_⟩, (hfiles ⟨0⟩ "a.rb" rfl).1, link, hlink, ?_⟩
  · cases hs
    exact hlocals "x" _ rfl
  · exact hsome rfl

end Arena

end MethodIR
