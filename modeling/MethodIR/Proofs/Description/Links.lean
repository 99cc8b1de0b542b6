import MethodIR.Proofs.Arena.Links
import MethodIR.Proofs.Description.Representation

/-!
The static scopes of a unit: one for each method described with one, in the order of the
description, owned by that method alone and linked back to it.
-/
namespace MethodIR

section countP

variable {α : Type} {p : α → Bool} {l : List α} {x : α} {k k' j : Nat}

theorem countP_take_lt (hx : l[k]? = some x) (hp : p x = true) (hk : k < k') :
    (l.take k).countP p < (l.take k').countP p := by
  have hpre : l.take (k + 1) <+: l.take k' := List.take_prefix_take_left (by omega)
  have hle : (l.take (k + 1)).countP p ≤ (l.take k').countP p := hpre.sublist.countP_le
  rw [List.take_add_one, hx, List.countP_append, Option.toList_some, List.countP_singleton,
    if_pos hp] at hle
  omega

/-- Items with a property are told apart by how many such items stand before them. -/
theorem countP_take_inj {x' : α} (hx : l[k]? = some x) (hp : p x = true) (hx' : l[k']? = some x')
    (hp' : p x' = true) (h : (l.take k).countP p = (l.take k').countP p) : k = k' := by
  rcases Nat.lt_trichotomy k k' with hlt | heq | hgt
  · have := countP_take_lt hx hp hlt
    omega
  · exact heq
  · have := countP_take_lt hx' hp' hgt
    omega

theorem exists_countP_take (h : j < l.countP p) :
    ∃ k x, l[k]? = some x ∧ p x = true ∧ (l.take k).countP p = j := by
  induction l using List.reverseRecOn with
  | nil => simp at h
  | append_singleton l y ih =>
    rw [List.countP_append, List.countP_singleton] at h
    by_cases hj : j < l.countP p
    · obtain ⟨k, x, hx, hp, hk⟩ := ih hj
      have hlt := (List.getElem?_eq_some_iff.1 hx).1
      refine ⟨k, x, ?_, hp, ?_⟩
      · rw [List.getElem?_append_left hlt, hx]
      · rw [List.take_append_of_le_length (Nat.le_of_lt hlt), hk]
    · have hp : p y = true := by
        by_contra hy
        rw [if_neg hy] at h
        omega
      rw [if_pos hp] at h
      refine ⟨l.length, y, List.getElem?_concat_length, hp, ?_⟩
      rw [List.take_left]
      omega

end countP

namespace Arena

variable {a : Arena} {p : Header} {ds : List Description.Method}

/-- What the static scope for the method under the next id is in the end. -/
def staticScopeFor (a : Arena) : StaticScope :=
  ⟨⟨.ofNat a.staticScopes.length⟩, if a.options.irGenOnly then none else some a.nextScopeId⟩

theorem staticScopes_grown (hsize : a.staticScopes.length < 2 ^ 32) (p : Header)
    (d : Description.Method) : (grown p a d).staticScopes =
      a.staticScopes ++ if d.hasStaticScope then [a.staticScopeFor] else [] := by
  have hlen : (UInt32.ofNat a.staticScopes.length).toNat = a.staticScopes.length :=
    UInt32.toNat_ofNat_of_lt' hsize
  cases hd : d.hasStaticScope
  · simp [grown, begun, staticFor, withMethod, linkStatic, hd]
  · simp only [grown, begun, staticFor, withMethod, linkStatic, hd, if_true, newStaticScope, hlen]
    rw [List.modify_eq_take_drop]
    simp [StaticScope.link_eq, StaticScope.new, staticScopeFor, nextScopeId]

theorem options_foldl_grown (a : Arena) (p : Header) (ds : List Description.Method) :
    (ds.foldl (grown p) a).options = a.options := by
  induction ds generalizing a with
  | nil => rfl
  | cons d ds ih =>
    rw [List.foldl_cons, ih]
    unfold grown begun
    split <;> rfl

theorem nextScopeId_foldl_grown (a : Arena) (p : Header) (ds : List Description.Method) :
    (ds.foldl (grown p) a).nextScopeId = ⟨.ofNat (a.scopes.length + ds.length)⟩ := by
  rw [nextScopeId, scopes_foldl_grown, List.length_append, length_mapBefore]

theorem length_staticScopes_foldl_grown (ha : a.staticScopes = []) (hsize : ds.length < 2 ^ 32)
    (p : Header) : (ds.foldl (grown p) a).staticScopes.length =
      ds.countP Description.Method.hasStaticScope := by
  induction ds using List.reverseRecOn with
  | nil => simp [ha]
  | append_singleton ds d ih =>
    rw [List.length_append, List.length_singleton] at hsize
    have hlen := ih (by omega)
    have hle : ds.countP Description.Method.hasStaticScope ≤ ds.length := List.countP_le_length
    rw [List.foldl_concat, staticScopes_grown (by omega), List.length_append, hlen,
      List.countP_append, List.countP_singleton]
    split <;> rfl

/-- The static scope of a method stands behind those of the methods described before it. -/
theorem getElem?_staticScopes_foldl_grown (ha : a.staticScopes = []) (hsize : ds.length < 2 ^ 32)
    (p : Header) {k : Nat} {d : Description.Method} (hk : ds[k]? = some d)
    (hd : d.hasStaticScope = true) :
    (ds.foldl (grown p) a).staticScopes[
        (ds.take k).countP Description.Method.hasStaticScope]? =
      some ((ds.take k).foldl (grown p) a).staticScopeFor := by
  induction ds using List.reverseRecOn with
  | nil => simp at hk
  | append_singleton ds d' ih =>
    rw [List.length_append, List.length_singleton] at hsize
    have hlen := length_staticScopes_foldl_grown ha (show ds.length < 2 ^ 32 by omega) p
    have hle : ds.countP Description.Method.hasStaticScope ≤ ds.length := List.countP_le_length
    rw [List.foldl_concat, staticScopes_grown (by omega)]
    rcases getElem?_concat_eq_some_iff.1 hk with hold | ⟨rfl, rfl⟩
    · have hlt := (List.getElem?_eq_some_iff.1 hold).1
      have hin := ih (by omega) hold
      rw [List.take_append_of_le_length (Nat.le_of_lt hlt),
        List.getElem?_append_left (List.getElem?_eq_some_iff.1 hin).1, hin]
    · rw [List.take_left, if_pos hd, ← hlen, List.getElem?_concat_length]

end Arena

namespace Description

open Arena (grown)

variable {d : Description} {o : Options} {k : Nat} {dm : Method}

/-- The arena of a unit in front of the method described after `k` others. -/
def arenaBefore (d : Description) (o : Options) (k : Nat) : Arena :=
  (d.methods.take k).foldl (grown script.header) (d.root o)

/-- The number of methods with a static scope among the first `k`. -/
def staticCount (d : Description) (k : Nat) : Nat :=
  (d.methods.take k).countP Method.hasStaticScope

theorem staticCount_lt (hsize : d.methods.length < 2 ^ 32) (k : Nat) :
    d.staticCount k < 2 ^ 32 := by
  have hle : d.staticCount k ≤ (d.methods.take k).length := List.countP_le_length
  rw [List.length_take] at hle
  omega

theorem length_staticScopes_arena (hsize : d.methods.length < 2 ^ 32) :
    (d.arena o).staticScopes.length = d.methods.countP Method.hasStaticScope :=
  Arena.length_staticScopes_foldl_grown rfl hsize script.header

theorem length_staticScopes_arenaBefore (hsize : d.methods.length < 2 ^ 32) (k : Nat) :
    (d.arenaBefore o k).staticScopes.length = d.staticCount k := by
  refine Arena.length_staticScopes_foldl_grown rfl ?_ script.header
  rw [List.length_take]
  omega

theorem nextScopeId_arenaBefore (hk : d.methods[k]? = some dm) :
    (d.arenaBefore o k).nextScopeId = ⟨.ofNat (k + 1)⟩ := by
  have hlt := (List.getElem?_eq_some_iff.1 hk).1
  rw [arenaBefore, Arena.nextScopeId_foldl_grown, scopes_root, List.length_take,
    Nat.min_eq_left (Nat.le_of_lt hlt), List.length_singleton, Nat.add_comm]

/-- The method for the description `dm` after `k` others. -/
def methodAt (d : Description) (o : Options) (k : Nat) (dm : Method) : MethodIR.Method :=
  (d.arenaBefore o k).translated script.header dm

theorem id_methodAt (hk : d.methods[k]? = some dm) :
    (d.methodAt o k dm).header.id = ⟨.ofNat (k + 1)⟩ := nextScopeId_arenaBefore hk

theorem staticScope_methodAt (hsize : d.methods.length < 2 ^ 32) (k : Nat) (dm : Method) :
    (d.methodAt o k dm).header.staticScope =
      if dm.hasStaticScope then some ⟨.ofNat (d.staticCount k)⟩ else none := by
  change (d.arenaBefore o k).staticFor dm = _
  rw [Arena.staticFor, Arena.newStaticScope, length_staticScopes_arenaBefore hsize]

theorem translates_methodAt (hoff : d.offences = []) (hk : d.methods[k]? = some dm) :
    (d.methodAt o k dm).Translates dm := by
  have hnone : dm.offences = [] := List.flatMap_eq_nil_iff.1 hoff dm (List.mem_of_getElem? hk)
  exact Arena.translates_translated hnone _ _

theorem method?_arena (hsize : d.methods.length < 2 ^ 32) (hk : d.methods[k]? = some dm) :
    (d.arena o).method? ⟨.ofNat (k + 1)⟩ = .ok (d.methodAt o k dm) := by
  have hlt := (List.getElem?_eq_some_iff.1 hk).1
  exact Arena.method?_eq_ok_iff.2 (scope?_arena (by omega) hk)

theorem mem_methods_arena {m : MethodIR.Method} : m ∈ (d.arena o).methods ↔
    ∃ (k : Nat) (dm : Method), d.methods[k]? = some dm ∧ d.methodAt o k dm = m := by
  simp only [Arena.methods, scopes_arena, List.mem_filterMap, List.mem_cons, mem_mapBefore]
  constructor
  · rintro ⟨s, rfl | ⟨k, dm, hk, rfl⟩, hm⟩
    · cases hm
    · cases hm
      exact ⟨k, dm, hk, rfl⟩
  · rintro ⟨k, dm, hk, rfl⟩
    exact ⟨_, .inr ⟨k, dm, hk, rfl⟩, rfl⟩

theorem staticScope?_arena (hsize : d.methods.length < 2 ^ 32) (hk : d.methods[k]? = some dm)
    (hd : dm.hasStaticScope = true) :
    (d.arena o).staticScope? ⟨.ofNat (d.staticCount k)⟩ = some
      ⟨⟨.ofNat (d.staticCount k)⟩, if o.irGenOnly then none else some ⟨.ofNat (k + 1)⟩⟩ := by
  have hoptions : (d.arenaBefore o k).options = o := Arena.options_foldl_grown _ _ _
  have hss := Arena.getElem?_staticScopes_foldl_grown (a := d.root o) rfl hsize script.header hk hd
  rw [Arena.staticScope?, UInt32.toNat_ofNat_of_lt' (staticCount_lt hsize k)]
  refine hss.trans (congrArg some ?_)
  change (d.arenaBefore o k).staticScopeFor = _
  rw [Arena.staticScopeFor, length_staticScopes_arenaBefore hsize, hoptions,
    nextScopeId_arenaBefore hk]

/-- Each static scope of a unit has an owner. -/
theorem exists_owner (hsize : d.methods.length < 2 ^ 32) {sid : StaticScopeId}
    (hsid : sid.index.toNat < (d.arena o).staticScopes.length) :
    ∃ k dm, d.methods[k]? = some dm ∧ dm.hasStaticScope = true ∧
      sid = ⟨.ofNat (d.staticCount k)⟩ := by
  rw [length_staticScopes_arena hsize] at hsid
  obtain ⟨k, dm, hk, hd, hcount⟩ := exists_countP_take hsid
  refine ⟨k, dm, hk, hd, ?_⟩
  rw [staticCount, hcount, UInt32.ofNat_toNat]

/-- No two methods of a unit have the same static scope. -/
theorem owner_unique (hsize : d.methods.length < 2 ^ 32) (hk : d.methods[k]? = some dm)
    (hd : dm.hasStaticScope = true) {m : MethodIR.Method} (hm : m ∈ (d.arena o).methods)
    (hstatic : m.header.staticScope = some ⟨.ofNat (d.staticCount k)⟩) :
    m = d.methodAt o k dm := by
  obtain ⟨k', dm', hk', rfl⟩ := mem_methods_arena.1 hm
  rw [staticScope_methodAt hsize] at hstatic
  split at hstatic
  · rename_i hd'
    have hcount := congrArg UInt32.toNat (StaticScopeId.mk.inj (Option.some.inj hstatic))
    rw [UInt32.toNat_ofNat_of_lt' (staticCount_lt hsize k'),
      UInt32.toNat_ofNat_of_lt' (staticCount_lt hsize k)] at hcount
    obtain rfl : k' = k := countP_take_inj hk' hd' hk hd hcount
    obtain rfl : dm' = dm := Option.some.inj (hk'.symm.trans hk)
    rfl
  · cases hstatic

/-- The static scopes of a unit are numbered in the order of the methods described with one. Each
has one owner, and is linked to it unless links are left out. -/
theorem build_links {ids : List ScopeId} {a : Arena} (h : d.build o = .ok (ids, a)) :
    a.staticScopes.length = d.methods.countP Method.hasStaticScope ∧
    (∀ k dm, d.methods[k]? = some dm → ∃ id m, ids[k]? = some id ∧ a.method? id = .ok m ∧
      m.header.id = id ∧ m.header.staticScope = if dm.hasStaticScope then
        some ⟨.ofNat (d.staticCount k)⟩ else none) ∧
    ∀ sid, sid.index.toNat < a.staticScopes.length →
      (∃! m, m ∈ a.methods ∧ m.header.staticScope = some sid) ∧
      ∀ m ∈ a.methods, m.header.staticScope = some sid → a.method? m.header.id = .ok m ∧
        a.staticScope? sid = some ⟨sid, if o.irGenOnly then none else some m.header.id⟩ := by
  obtain ⟨hsize, -, rfl, rfl⟩ := build_eq_ok h
  refine ⟨length_staticScopes_arena hsize, ?_, ?_⟩
  · intro k dm hk
    have hlt := (List.getElem?_eq_some_iff.1 hk).1
    exact ⟨_, _, getElem?_nextScopeIds_root hlt, method?_arena hsize hk, id_methodAt hk,
      staticScope_methodAt hsize k dm⟩
  · intro sid hsid
    obtain ⟨k, dm, hk, hd, rfl⟩ := exists_owner hsize hsid
    have hown : (d.methodAt o k dm).header.staticScope = some ⟨.ofNat (d.staticCount k)⟩ :=
      (staticScope_methodAt hsize k dm).trans (if_pos hd)
    constructor
    · refine ⟨d.methodAt o k dm, ⟨mem_methods_arena.2 ⟨k, dm, hk, rfl⟩, hown⟩, ?_⟩
      intro m hm
      exact owner_unique hsize hk hd hm.1 hm.2
    · intro m hm hstatic
      obtain rfl := owner_unique hsize hk hd hm hstatic
      rw [id_methodAt hk]
      exact ⟨method?_arena hsize hk, staticScope?_arena hsize hk hd⟩

end Description

namespace Arena

/-- Links after any run, and links of any unit. A static scope is linked to the method that was
created with it last, whatever failed in between, and to none if links are left out; the method
keeps its static scope either way. In a unit every static scope has one owner, described in the same
order, and is linked to that. -/
theorem static_links (o : Options) :
    (∀ ops sid, let r := (Arena.new o).run ops
      r.2.scopeForStatic? sid = (if o.irGenOnly then none
        else ((ops.zip r.1).filterMap (createdFor? sid)).getLast?) ∧
      (∀ id, r.2.scopeForStatic? sid = some id → ∃ m ∈ r.2.methods, m.header.id = id ∧
        m.header.staticScope = some sid ∧
        (r.2.scopes.length ≤ 2 ^ 32 → r.2.method? id = .ok m)) ∧
      ∀ (k : Nat) parent name isInstance line staticScope id,
        ops[k]? = some (.newMethod parent name isInstance line staticScope) →
        r.1[k]? = some (.ok (.scope id)) → ∃ m ∈ r.2.methods, m.header.id = id ∧
          m.header.staticScope = staticScope ∧
          (r.2.scopes.length ≤ 2 ^ 32 → r.2.method? id = .ok m)) ∧
    ∀ (d : Description) ids a, d.build o = .ok (ids, a) →
      a.staticScopes.length = d.methods.countP Description.Method.hasStaticScope ∧
      (∀ k dm, d.methods[k]? = some dm → ∃ id m, ids[k]? = some id ∧ a.method? id = .ok m ∧
        m.header.id = id ∧ m.header.staticScope = if dm.hasStaticScope then
          some ⟨.ofNat (d.staticCount k)⟩ else none) ∧
      ∀ sid, sid.index.toNat < a.staticScopes.length →
        (∃! m, m ∈ a.methods ∧ m.header.staticScope = some sid) ∧
        ∀ m ∈ a.methods, m.header.staticScope = some sid → a.method? m.header.id = .ok m ∧
          a.staticScope? sid = some ⟨sid, if o.irGenOnly then none else some m.header.id⟩ := by
  refine ⟨fun ops sid => ?_, fun d ids a h => d.build_links h⟩
  have hnone := scopeForStatic?_new o sid
  intro r
  refine ⟨?_, ?_, ?_⟩
  · have hrun := (Arena.new o).scopeForStatic?_run ops sid
    rwa [hnone, Option.or_none] at hrun
  · intro id hid
    obtain ⟨k, parent, name, isInstance, line, hop, hr⟩ := reply_of_scopeForStatic? hnone hid
    exact mem_methods_of_reply hop hr
  · intro k parent name isInstance line staticScope id hop hr
    exact mem_methods_of_reply hop hr

/-- A static scope that is named twice, and a unit in which a method without a static scope stands
between two with one. -/
theorem static_links_between :
    let r := (new .default).run [.newScript "a.rb" 1, .newStaticScope,
      .newMethod ⟨0⟩ "f" true 2 (some ⟨0⟩), .newMethod ⟨0⟩ "g" true 3 (some ⟨0⟩)]
    let d : Description := ⟨"a.rb", [⟨"f", 1, false, true, [], []⟩, ⟨"g", 2, false, false, [], []⟩,
      ⟨"h", 3, false, true, [], []⟩]⟩
    (r.2.scopeForStatic? ⟨0⟩ = some ⟨2⟩ ∧
      (∃ m, r.2.method? ⟨2⟩ = .ok m ∧ m.header.staticScope = some ⟨0⟩) ∧
      ∃ m, r.2.method? ⟨1⟩ = .ok m ∧ m.header.staticScope = some ⟨0⟩) ∧
    ∃ ids a, d.build .default = .ok (ids, a) ∧ a.staticScopes.length = 2 ∧
      ∃ id m, ids[2]? = some id ∧ a.method? id = .ok m ∧ m.header.staticScope = some ⟨1⟩ ∧
        a.staticScope? ⟨1⟩ = some ⟨⟨1⟩, some id⟩ := by
  intro r d
  constructor
  · obtain ⟨-, hlinked, hkept⟩ := (static_links .default).1 [.newScript "a.rb" 1, .newStaticScope,
      .newMethod ⟨0⟩ "f" true 2 (some ⟨0⟩), .newMethod ⟨0⟩ "g" true 3 (some ⟨0⟩)] ⟨0⟩
    have hsize : r.2.scopes.length ≤ 2 ^ 32 := by
      have hlen : r.2.scopes.length = 3 := rfl
      rw [hlen]
      decide
    obtain ⟨last, -, -, hlast, hget⟩ := hlinked ⟨2⟩ rfl
    obtain ⟨first, -, -, hfirst, hget'⟩ := hkept 2 _ _ _ _ _ ⟨1⟩ rfl rfl
    exact ⟨rfl, ⟨last, hget hsize, hlast⟩, first, hget' hsize, hfirst⟩
  · have hbuilt : ∃ ids a, d.build .default = .ok (ids, a) := ⟨_, _, rfl⟩
    obtain ⟨ids, a, h⟩ := hbuilt
    obtain ⟨hlen, hmethods, howners⟩ := (static_links .default).2 d ids a h
    obtain ⟨id, m, hid, hm, rfl, hstatic⟩ := hmethods 2 _ rfl
    have hlink := (howners ⟨1⟩ (by rw [hlen]; decide)).2 m
      (List.mem_filterMap.2 ⟨_, List.mem_of_getElem? (method?_eq_ok_iff.1 hm), rfl⟩) hstatic
    exact ⟨ids, a, h, hlen, _, m, hid, hm, hstatic, hlink.2⟩

end Arena

end MethodIR
