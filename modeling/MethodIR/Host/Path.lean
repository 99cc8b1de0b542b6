/-!
Paths as their text has them: whether they start at the root, and the pieces between slashes, empty
ones included. Dropping the last component goes up one directory, by the text alone.
-/
namespace MethodIR

structure Path where
  rooted : Bool
  pieces : List String
deriving DecidableEq, Repr

namespace Path

/-- The pieces of a text between slashes, at least one. -/
def splitSlashes : List Char → List (List Char)
  | [] => [[]]
  | c :: cs =>
    if c = '/' then [] :: splitSlashes cs
    else match splitSlashes cs with
      | [] => [[c]]
      | piece :: pieces => (c :: piece) :: pieces

/-- Pieces of a text; an empty text has none. -/
def piecesOf (cs : List Char) : List String :=
  if cs.isEmpty then [] else (splitSlashes cs).map String.ofList

def ofString (s : String) : Path :=
  match s.toList with
  | '/' :: cs => ⟨true, piecesOf cs⟩
  | cs => ⟨false, piecesOf cs⟩

def text (p : Path) : String := (if p.rooted then "/" else "") ++ "/".intercalate p.pieces

/-- The path of a name below a directory; one slash at the end of the directory serves as the
separator. -/
def child (p : Path) (name : String) : Path :=
  let pieces := if p.pieces.getLast? = some "" then p.pieces.dropLast else p.pieces
  { p with pieces := pieces ++ [name] }

/-- A path below another one, unless it is rooted itself. -/
def under (base p : Path) : Path :=
  if p.rooted then p else ⟨base.rooted, base.pieces ++ p.pieces⟩

/-- Whether the last of some pieces is a component: an empty one is none, and a single dot only at
the start of a path that is not rooted. -/
def isComponent (rooted : Bool) (before : List String) (piece : String) : Bool :=
  piece != "" && (piece != "." || (before.isEmpty && !rooted))

/-- Drops pieces from the end, given in reverse, until one is a component. -/
def trimReversed (rooted : Bool) : List String → List String
  | [] => []
  | piece :: before =>
    if isComponent rooted before piece then piece :: before else trimReversed rooted before

def trim (p : Path) : Path := { p with pieces := (trimReversed p.rooted p.pieces.reverse).reverse }

/-- The path without its last component, or `none` when there is no component. -/
def parent? (p : Path) : Option Path :=
  let q := p.trim
  if q.pieces.isEmpty then none else some (trim { q with pieces := q.pieces.dropLast })

theorem length_trimReversed_le (rooted : Bool) (pieces : List String) :
    (trimReversed rooted pieces).length ≤ pieces.length := by
  induction pieces with
  | nil => simp [trimReversed]
  | cons piece before ih =>
    simp only [trimReversed]
    split
    · simp
    · exact Nat.le_succ_of_le ih

theorem length_trim_le (p : Path) : p.trim.pieces.length ≤ p.pieces.length := by
  simpa [trim] using length_trimReversed_le p.rooted p.pieces.reverse

theorem length_parent_lt {p q : Path} (h : p.parent? = some q) :
    q.pieces.length < p.pieces.length := by
  simp only [parent?] at h
  split at h
  · simp at h
  · rename_i hne
    cases h
    have h₁ := length_trim_le { p.trim with pieces := p.trim.pieces.dropLast }
    have h₂ := length_trim_le p
    have h₃ : p.trim.pieces.length ≠ 0 := by simpa using hne
    simp only [List.length_dropLast] at h₁
    omega

/-- The path and all that dropping components leads to, the nearest first. -/
def ancestors (p : Path) : List Path :=
  p :: match _h : p.parent? with
    | none => []
    | some q => q.ancestors
termination_by p.pieces.length
decreasing_by exact length_parent_lt _h

end Path

end MethodIR
