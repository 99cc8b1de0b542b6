import MethodIR.Proofs.Host.Ancestors
import MethodIR.Proofs.Host.View
import MethodIR.Proofs.Result

/-!
Which file sets the options. The search goes up from its start, and the nearest place where anything
stands decides, whatever stands there: a file that cannot be read or that is wrong makes an error
about itself, and nothing else is looked at. Only if there is no such place the options are the
default without any file.
-/
namespace MethodIR

/-- The file that is found above a place. -/
def View.found (v : View) (start : Path) : Option Path := (Config.find? start : OnView _).run v

/-- The options that are loaded. -/
def View.options (v : View) (explicit : Option Path) (start : Path) :
    Except Config.Error Options := (Config.load explicit start : OnView _).run v

namespace Config

open OnMachine (value)

variable {v v' : View} {start c p : Path} {content : Except AccessError ByteArray} {n : Nat}

/-- The place where the file is looked for `n` steps above. -/
def place? (start : Path) (n : Nat) : Option Path := (start.climb n).map (·.child fileName)

/-- The file that sets the options: the explicit one, or the one that is found. -/
def chosen? (v : View) (explicit : Option Path) (start : Path) : Option Path :=
  match explicit with
  | some path => some path
  | none => v.found start

/-- The options that a file with this content sets. -/
def ofContent (path : Path) (content : Except AccessError ByteArray) : Except Error Options :=
  match content with
  | .error e => .error (.unreadable path e)
  | .ok bytes =>
    match String.fromUTF8? bytes with
    | none => .error (.unreadable path .notText)
    | some s => (Options.ofToml s).mapError (.invalid path)

/-- The file that an error is about. -/
def Error.path : Error → Path
  | .unreadable path _ | .invalid path _ => path

/-- The wording of an error has the path in it and is one for each kind of error. -/
def Error.Names (e : Error) (path : Path) : Prop :=
  e.path = path ∧ ∀ detail, ∃ rest,
    e.describe detail = "cannot read '" ++ path.text ++ "': " ++ rest ∨
    e.describe detail = "invalid toml in '" ++ path.text ++ "': " ++ rest

theorem Error.names_path (e : Error) : e.Names e.path := by
  refine ⟨rfl, fun detail => ?_⟩
  cases e with
  | unreadable path e => exact ⟨_, .inl rfl⟩
  | invalid path e => exact ⟨_, .inr rfl⟩

/-! The search. -/

theorem getElem?_candidates (start : Path) (n : Nat) :
    (candidates start)[n]? = place? start n := by
  rw [candidates, List.getElem?_map, Path.getElem?_ancestors, place?]

theorem found_eq (v : View) (start : Path) : v.found start = (candidates start).find? v.isThere :=
  OnView.run_findM? v _

theorem found_eq_some_iff : v.found start = some c ↔ ∃ n, place? start n = some c ∧
    v.isThere c = true ∧ ∀ k < n, ∀ p, place? start k = some p → v.isThere p = false := by
  simp only [found_eq, ← getElem?_candidates]
  rw [List.find?_eq_some_iff_getElem]
  constructor
  · rintro ⟨hc, n, hn, hplace, hbefore⟩
    refine ⟨n, List.getElem?_eq_some_iff.2 ⟨hn, hplace⟩, hc, fun k hk p hp => ?_⟩
    obtain ⟨-, rfl⟩ := List.getElem?_eq_some_iff.1 hp
    simpa using hbefore k hk
  · rintro ⟨n, hplace, hc, hbefore⟩
    obtain ⟨hn, hplace⟩ := List.getElem?_eq_some_iff.1 hplace
    refine ⟨hc, n, hn, hplace, fun k hk => ?_⟩
    have hnot := hbefore k hk _ (List.getElem?_eq_getElem (Nat.lt_trans hk hn))
    simpa using hnot

theorem found_eq_none_iff : v.found start = none ↔
    ∀ n p, place? start n = some p → v.isThere p = false := by
  simp only [found_eq, ← getElem?_candidates, List.find?_eq_none, Bool.not_eq_true]
  constructor
  · intro h n p hp
    exact h p (List.mem_of_getElem? hp)
  · intro h p hp
    obtain ⟨n, hn⟩ := List.mem_iff_getElem?.1 hp
    exact h n p hn

/-- Two views that agree up to the nearest place with something at it agree on what is found. -/
theorem found_congr (hplace : place? start n = some c) (hc : v.isThere c = true)
    (h : ∀ k ≤ n, ∀ p, place? start k = some p → v'.isThere p = v.isThere p) :
    v'.found start = v.found start := by
  have hfound : ∃ d, v.found start = some d := by
    cases hd : v.found start with
    | some d => exact ⟨d, rfl⟩
    | none =>
      have hnot := found_eq_none_iff.1 hd n c hplace
      rw [hnot] at hc
      cases hc
  obtain ⟨d, hd⟩ := hfound
  obtain ⟨k, hk, hthere, hbefore⟩ := found_eq_some_iff.1 hd
  have hkn : k ≤ n := by
    rcases Nat.lt_or_ge n k with hlt | hge
    · have hnot := hbefore n hlt c hplace
      rw [hnot] at hc
      cases hc
    · exact hge
  rw [hd, found_eq_some_iff]
  refine ⟨k, hk, (h k hkn d hk).trans hthere, fun j hj p hp => ?_⟩
  rw [h j (by omega) p hp]
  exact hbefore j hj p hp

/-! The file. -/

theorem ofContent_path {e : Error} (h : ofContent p content = .error e) : e.path = p := by
  unfold ofContent at h
  split at h
  · cases h
    rfl
  · split at h
    · cases h
      rfl
    · obtain ⟨e', -, rfl⟩ := mapError_eq_error_iff.1 h
      rfl

/-- The names of the options in the table `ir`. -/
def optionNames : List String := ["ir_gen_only", "trace_signature"]

/-- A table that sets options has truth values for them. -/
theorem boolean_of_foldlM {es : Toml.Entries} {o o' : Options}
    (h : es.foldlM Options.withEntry o = .ok o') {key : String} {value : Toml.Value}
    (hmem : (key, value) ∈ es) (hkey : key ∈ optionNames) : ∃ b, value = .boolean b := by
  induction es generalizing o with
  | nil => cases hmem
  | cons entry es ih =>
    rw [List.foldlM_cons] at h
    obtain ⟨o₁, hentry, hrest⟩ := bind_eq_ok_iff.1 h
    rcases List.mem_cons.1 hmem with rfl | hmem
    · have hboolean : ∃ b, value.boolean? = .ok b := by
        simp only [optionNames, List.mem_cons, List.not_mem_nil, or_false] at hkey
        rcases hkey with rfl | rfl
        · obtain ⟨b, hb, -⟩ := bind_eq_ok_iff.1 hentry
          exact ⟨b, hb⟩
        · obtain ⟨b, hb, -⟩ := bind_eq_ok_iff.1 hentry
          exact ⟨b, hb⟩
      obtain ⟨b, hb⟩ := hboolean
      cases value with
      | boolean b' => exact ⟨b', rfl⟩
      | _ => cases hb
    · exact ih hrest hmem

/-- What keeps a file from setting options: it cannot be read, holds no text, no TOML, or something
else than a truth value for an option in its table `ir`. -/
inductive Broken : Except AccessError ByteArray → Prop where
  | unreadable (e : AccessError) : Broken (.error e)
  | notText {bytes : ByteArray} (h : String.fromUTF8? bytes = none) : Broken (.ok bytes)
  | malformed {s : String} (h : Toml.read? s = none) : Broken (.ok s.toUTF8)
  | notBoolean {s key : String} {es table : Toml.Entries} {origin : Toml.Origin}
      {value : Toml.Value} (h : Toml.read? s = some es)
      (htable : es.lookup "ir" = some (.table origin table)) (hmem : (key, value) ∈ table)
      (hkey : key ∈ optionNames) (hvalue : ∀ b, value ≠ .boolean b) : Broken (.ok s.toUTF8)

theorem ofContent_of_text (path : Path) (s : String) :
    ofContent path (.ok s.toUTF8) = (Options.ofToml s).mapError (.invalid path) := by
  simp only [ofContent, OnMachine.fromUTF8?_toUTF8]

theorem ofToml_of_table {s : String} {es table : Toml.Entries} {origin : Toml.Origin}
    (h : Toml.read? s = some es) (htable : es.lookup "ir" = some (.table origin table)) :
    Options.ofToml s = table.foldlM Options.withEntry .default := by
  simp only [Options.ofToml, h, htable, Options.ofValue]

/-- A broken file makes an error about itself. -/
theorem Broken.error (h : Broken content) (p : Path) :
    ∃ e, ofContent p content = .error e ∧ e.Names p := by
  have herror : ∃ e, ofContent p content = .error e := by
    cases h with
    | unreadable e => exact ⟨_, rfl⟩
    | notText h =>
      rw [ofContent, h]
      exact ⟨_, rfl⟩
    | @malformed s h =>
      rw [ofContent_of_text, Options.ofToml, h]
      exact ⟨_, rfl⟩
    | @notBoolean s key es table origin value h htable hmem hkey hvalue =>
      rw [ofContent_of_text, ofToml_of_table h htable]
      cases hfold : table.foldlM Options.withEntry .default with
      | error e => exact ⟨_, rfl⟩
      | ok o =>
        obtain ⟨b, hb⟩ := boolean_of_foldlM hfold hmem hkey
        exact absurd hb (hvalue b)
  obtain ⟨e, he⟩ := herror
  have hpath := ofContent_path he
  exact ⟨e, he, hpath ▸ e.names_path⟩

/-! Reading and loading on a view. -/

theorem run_readText (v : View) (path : Path) :
    (Host.readText path : OnView _).run v =
      match v.content path with
      | .error e => .error e
      | .ok bytes =>
        match String.fromUTF8? bytes with
        | none => .error .notText
        | some s => .ok s := by
  have hread : (Host.readText path : OnView _).run v =
      (match v.content path with
        | .error e => pure (.error e)
        | .ok bytes =>
          match String.fromUTF8? bytes with
          | none => pure (.error .notText)
          | some s => pure (.ok s) : OnView (Except AccessError String)).run v := rfl
  rw [hread]
  cases v.content path with
  | error e => rfl
  | ok bytes =>
    dsimp only
    cases String.fromUTF8? bytes with
    | none => rfl
    | some s => rfl

theorem run_read (v : View) (path : Path) :
    (read path : OnView _).run v = ofContent path (v.content path) := by
  rw [read, OnView.run_bind, run_readText]
  unfold ofContent
  cases v.content path with
  | error e => rfl
  | ok bytes =>
    dsimp only
    cases String.fromUTF8? bytes with
    | none => rfl
    | some s => rfl

/-- Loading opens one file at most. -/
theorem options_eq (v : View) (explicit : Option Path) (start : Path) :
    v.options explicit start =
      match chosen? v explicit start with
      | some c => ofContent c (v.content c)
      | none => .ok .default := by
  cases explicit with
  | some path => exact run_read v path
  | none =>
    have hload : v.options none start =
        (match v.found start with
          | some c => read c
          | none => pure (.ok .default) : OnView (Except Error Options)).run v := rfl
    rw [hload, chosen?]
    cases v.found start with
    | none => rfl
    | some c => exact run_read v c

theorem options_of_chosen {explicit : Option Path} (h : chosen? v explicit start = some c) :
    v.options explicit start = ofContent c (v.content c) := by
  rw [options_eq, h]

/-- What is found is a matter of what is there. -/
theorem found_of_isThere (h : v'.isThere = v.isThere) (start : Path) :
    v'.found start = v.found start := by
  rw [found_eq, found_eq, h]

theorem options_none_eq_default_iff : (∀ content : Path → Except AccessError ByteArray,
    ({ v with content := content } : View).options none start = .ok .default) ↔
    v.found start = none := by
  constructor
  · intro h
    cases hfound : v.found start with
    | none => rfl
    | some c =>
      -- what cannot be read tells the place from the default
      let w : View := { v with content := fun _ => .error .isADirectory }
      have hthere : w.isThere = v.isThere := rfl
      have hchosen : chosen? w none start = some c :=
        (found_of_isThere hthere start).trans hfound
      have hfailed : w.options none start = .error (.unreadable c .isADirectory) :=
        options_of_chosen hchosen
      cases hfailed.symm.trans (h _)
  · intro hfound content
    have hthere : ({ v with content := content } : View).isThere = v.isThere := rfl
    have hchosen : chosen? { v with content := content } none start = none :=
      (found_of_isThere hthere start).trans hfound
    rw [options_eq, hchosen]

/-! Searching and loading on a machine. -/

theorem run_find?_machine (m : Machine) (start : Path) :
    (find? start : OnMachine _).run m = (m.view.found start, m) := by
  refine Prod.ext ?_ (looks_find? start m)
  rw [found_eq]
  exact OnMachine.value_findM? m _

theorem value_read_machine (m : Machine) (path : Path) :
    (read path : OnMachine _).value m = ofContent path (m.view.content path) := by
  have hread : (Host.read path : OnMachine _).value m = m.view.content path := rfl
  rw [value, read, (OnMachine.looks_readText path).run_bind, value, Host.readText,
    (OnMachine.looks_read path).run_bind, hread]
  unfold ofContent
  cases m.view.content path with
  | error e => rfl
  | ok bytes =>
    dsimp only
    cases String.fromUTF8? bytes with
    | none => rfl
    | some s => rfl

theorem run_load_machine (m : Machine) (explicit : Option Path) (start : Path) :
    (load explicit start : OnMachine _).run m = (m.view.options explicit start, m) := by
  refine Prod.ext ?_ (looks_load explicit start m)
  rw [options_eq]
  cases explicit with
  | some path => exact value_read_machine m path
  | none =>
    have hfind : (find? start : OnMachine _).value m = m.view.found start :=
      congrArg Prod.fst (run_find?_machine m start)
    rw [load, (looks_find? start).run_bind, hfind, chosen?]
    cases m.view.found start with
    | none => rfl
    | some c => exact value_read_machine m c

theorem options_error {explicit : Option Path} {e : Error}
    (h : v.options explicit start = .error e) :
    ∃ c, chosen? v explicit start = some c ∧ e.Names c := by
  cases hchosen : chosen? v explicit start with
  | none =>
    rw [options_eq, hchosen] at h
    cases h
  | some c =>
    rw [options_of_chosen hchosen] at h
    have hpath := ofContent_path h
    exact ⟨c, rfl, hpath ▸ e.names_path⟩

/-- The chain above the start is finite, each member being the start with one component less, and
the first member with something at its place of the file is the one that is found, so that nothing
higher up matters. An explicit file sets the options by its content alone, the file that is found
does so too, and without one they are the default; with one they are what it holds, so that they are
the default whatever files hold just if there is none. A chosen file that is broken makes an error
about itself, and no other file is ever the subject of one. A machine, whatever its files, shows
what its view shows and stays as it is. -/
theorem nearest_file_decides (v : View) (start : Path) :
    -- the chain
    (∀ n, (start.climb n).isSome ↔ n ≤ start.components.length) ∧
    (∀ n p, start.climb n = some p → p.rooted = start.rooted ∧
      p.components = start.components.take (start.components.length - n)) ∧
    -- the search
    (∀ c, v.found start = some c ↔ ∃ n, place? start n = some c ∧ v.isThere c = true ∧
      ∀ k < n, ∀ p, place? start k = some p → v.isThere p = false) ∧
    (v.found start = none ↔ ∀ n p, place? start n = some p → v.isThere p = false) ∧
    (∀ (n : Nat) (c : Path) (v' : View), place? start n = some c → v.isThere c = true →
      (∀ k ≤ n, ∀ p, place? start k = some p → v'.isThere p = v.isThere p) →
      v'.found start = v.found start) ∧
    -- the options
    (∀ (p : Path) (v' : View) (start' : Path), v'.content p = v.content p →
      v'.options (some p) start' = v.options (some p) start) ∧
    (∀ (c : Path) (v' : View), v.found start = some c → v'.found start = some c →
      v'.content c = v.content c → v'.options none start = v.options none start) ∧
    (∀ c, v.found start = some c → v.options none start = v.options (some c) start) ∧
    (v.found start = none → v.options none start = .ok .default) ∧
    ((∀ content : Path → Except AccessError ByteArray,
      ({ v with content := content } : View).options none start = .ok .default) ↔
      v.found start = none) ∧
    -- the errors
    (∀ explicit c, chosen? v explicit start = some c → Broken (v.content c) →
      ∃ e, v.options explicit start = .error e ∧ e.Names c) ∧
    (∀ explicit e, v.options explicit start = .error e →
      ∃ c, chosen? v explicit start = some c ∧ e.Names c) ∧
    -- machines
    (∀ m : Machine, (find? start : OnMachine _).run m = (m.view.found start, m) ∧
      ∀ explicit, (load explicit start : OnMachine _).run m =
        (m.view.options explicit start, m)) := by
  refine ⟨fun n => Path.isSome_climb_iff n start, fun n p => Path.components_climb,
    fun c => found_eq_some_iff, found_eq_none_iff,
    fun n c v' hplace hc h => found_congr hplace hc h, ?explicit, ?discovered, ?same, ?default,
    options_none_eq_default_iff, ?broken, fun explicit e => options_error,
    fun m => ⟨run_find?_machine m start, fun explicit => run_load_machine m explicit start⟩⟩
  case explicit =>
    intro p v' start' hcontent
    have hchosen : chosen? v (some p) start = some p := rfl
    have hchosen' : chosen? v' (some p) start' = some p := rfl
    rw [options_of_chosen hchosen, options_of_chosen hchosen', hcontent]
  case discovered =>
    intro c v' hfound hfound' hcontent
    have hchosen : chosen? v none start = some c := hfound
    have hchosen' : chosen? v' none start = some c := hfound'
    rw [options_of_chosen hchosen, options_of_chosen hchosen', hcontent]
  case same =>
    intro c hfound
    have hchosen : chosen? v none start = some c := hfound
    have hexplicit : chosen? v (some c) start = some c := rfl
    rw [options_of_chosen hchosen, options_of_chosen hexplicit]
  case default =>
    intro hfound
    exact options_none_eq_default_iff.2 hfound v.content
  case broken =>
    intro explicit c hchosen hbroken
    obtain ⟨e, he, hnames⟩ := hbroken.error c
    exact ⟨e, (options_of_chosen hchosen).trans he, hnames⟩

/-- A directory in the place of the nearest file makes an error about itself, also if a good file is
further up. -/
theorem nearest_file_decides_directory :
    let near : Path := ⟨false, ["a", "garnet.toml"]⟩
    let far : Path := ⟨false, ["garnet.toml"]⟩
    let v : View := ⟨fun p => p = near ∨ p = far,
      fun p => if p = near then .error .isADirectory else .ok "".toUTF8, ⟨true, []⟩⟩
    let start : Path := ⟨false, ["a", "b"]⟩
    v.found start = some near ∧ v.options (some far) start = .ok .default ∧
      ∃ e, v.options none start = .error e ∧ e.Names near := by
  intro near far v start
  obtain ⟨-, -, hsearch, -, -, -, -, -, -, -, hbroken, -⟩ := nearest_file_decides v start
  have hfound : v.found start = some near := by
    refine (hsearch near).2 ⟨1, rfl, by decide, ?_⟩
    intro k hk p hp
    obtain rfl : k = 0 := by omega
    cases hp
    decide
  have hfar : v.options (some far) start = .ok .default := by
    rw [options_of_chosen (c := far) rfl]
    exact (ofContent_of_text far "").trans rfl
  exact ⟨hfound, hfar, hbroken none near hfound (.unreadable .isADirectory)⟩

/-- Finding a file does not keep the options from being the default: an empty file sets none. -/
theorem options_default_of_empty_file :
    let files := FileSystem.empty.put ["garnet.toml"] (.file "".toUTF8)
    let m := Machine.ofFiles files []
    m.view.found ⟨true, []⟩ = some ⟨true, ["garnet.toml"]⟩ ∧
      m.view.options none ⟨true, []⟩ = .ok .default := by
  intro files m
  have hfound : m.view.found ⟨true, []⟩ = some ⟨true, ["garnet.toml"]⟩ := by
    refine found_eq_some_iff.2 ⟨0, rfl, rfl, ?_⟩
    intro k hk
    cases hk
  have hchosen : chosen? m.view none ⟨true, []⟩ = some ⟨true, ["garnet.toml"]⟩ := hfound
  refine ⟨hfound, ?_⟩
  rw [options_of_chosen hchosen]
  exact (ofContent_of_text _ "").trans rfl

end Config

end MethodIR
