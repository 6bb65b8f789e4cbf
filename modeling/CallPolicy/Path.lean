import CallPolicy.Text.Basic

/-!
# File paths

A path is kept as it is written, for display and for the order of positions.  It is a text: paths
with other bytes, which a file system can have, are left out here.  Its *components* are what it
means: a root, a leading `.`, `..`, and names.  Repeated slashes, a trailing slash and `.` segments
after the first carry no meaning; `..` is never resolved here, because what it stands for is a
question to the file tree.

A path text is an *anchor* (a leading `/`, a leading `.`, or nothing) followed by slash-separated
*segments*; a segment is *idle* if it is empty or `.`.
-/

namespace CallPolicy

/-- A file path as it is written. -/
structure Path where
  text : String
deriving DecidableEq, Repr, Inhabited

namespace Path

/-! ## Components -/

/-- One step of a path. -/
inductive Component where
  /-- The leading slash. -/
  | root
  /-- A leading `.`. -/
  | current
  /-- The segment `..`. -/
  | parent
  /-- A name. -/
  | name (text : String)
deriving DecidableEq, Repr

namespace Component

/-- The place of each kind of component in their order. -/
def rank : Component → Nat
  | root => 0
  | current => 1
  | parent => 2
  | name _ => 3

/-- The text by which names are ordered. -/
def label : Component → String
  | name text => text
  | _ => ""

/-- The root comes first, then `.`, then `..`, then names by their text. -/
instance : Ord Component := ⟨compareLex (compareOn rank) (compareOn label)⟩

instance : Std.TransOrd Component :=
  inferInstanceAs (Std.TransCmp (compareLex (compareOn rank) (compareOn label)))

/-- Components that compare equal are equal. -/
instance : Std.LawfulEqOrd Component where
  eq_of_compare {a b} h := by
    have h' : (compare a.rank b.rank).then (compare a.label b.label) = .eq := h
    rw [Ordering.then_eq_eq] at h'
    have hrank := Std.LawfulEqOrd.eq_of_compare h'.1
    have hlabel := Std.LawfulEqOrd.eq_of_compare h'.2
    cases a <;> cases b <;> simp_all [rank, label]

end Component

/-- How a path begins. -/
inductive Anchor where
  /-- With a slash. -/
  | root
  /-- With a `.` segment. -/
  | current
  /-- With a name or with `..`, or it is empty. -/
  | none
deriving DecidableEq, Repr

/-- The anchor's text. -/
def Anchor.chars : Anchor → List Char
  | .root => ['/']
  | .current => ['.']
  | .none => []

/-- The anchor's component. -/
def Anchor.components : Anchor → List Component
  | .root => [.root]
  | .current => [.current]
  | .none => []

/-- The anchor of a text and what follows it. -/
def cutAnchor : List Char → Anchor × List Char
  | '/' :: rest => (.root, rest)
  | ['.'] => (.current, [])
  | '.' :: '/' :: rest => (.current, '/' :: rest)
  | text => (.none, text)

/-- Cutting off the anchor loses nothing. -/
theorem chars_cutAnchor (text : List Char) :
    (cutAnchor text).1.chars ++ (cutAnchor text).2 = text := by
  fun_cases cutAnchor text <;> rfl

/-- How the path begins. -/
def anchor (p : Path) : Anchor :=
  (cutAnchor p.text.toList).1

/-- The segments after the anchor. -/
def segments (p : Path) : List (List Char) :=
  Text.split '/' (cutAnchor p.text.toList).2

/-- The segment carries no meaning. -/
def isIdle (segment : List Char) : Bool :=
  segment.isEmpty || segment == ['.']

/-- The component that a segment stands for. -/
def Component.ofSegment (segment : List Char) : Component :=
  if segment = ['.', '.'] then .parent else .name (String.ofList segment)

/-- The components of segments. -/
def componentsOf (segments : List (List Char)) : List Component :=
  (segments.filter fun s => !isIdle s).map Component.ofSegment

/-- What the path means. -/
def components (p : Path) : List Component :=
  p.anchor.components ++ componentsOf p.segments

/-- The path begins with a slash. -/
def isAbsolute (p : Path) : Bool :=
  p.text.toList.head? == some '/'

/-- The path with the given anchor and segments. -/
def ofParts (anchor : Anchor) (segments : List (List Char)) : Path :=
  ⟨String.ofList (anchor.chars ++ Text.join '/' segments)⟩

/-- A path is its anchor and its segments. -/
theorem ofParts_anchor_segments (p : Path) : ofParts p.anchor p.segments = p := by
  simp [ofParts, anchor, segments, Text.join_split, chars_cutAnchor]

/-! ## Operations -/

/-- The path `q` seen from `p`: itself if it is absolute, else appended after one slash. -/
def join (p q : Path) : Path :=
  if q.isAbsolute then q
  else if p.text.isEmpty || p.text.toList.getLast? == some '/' then ⟨p.text ++ q.text⟩
  else ⟨p.text ++ "/" ++ q.text⟩

/-- The path of what has the given names, one below the other, from the directory `p`. -/
def joinAll (p : Path) (names : List String) : Path :=
  names.foldl (fun here name => here.join ⟨name⟩) p

/-- The segments without idle ones at the end. -/
def trimIdleEnd (segments : List (List Char)) : List (List Char) :=
  (segments.reverse.dropWhile isIdle).reverse

/-- The path without its last component; the root and the empty path have none to drop. -/
def parent? (p : Path) : Option Path :=
  match p.segments.reverse.dropWhile isIdle with
  | _ :: rest => some (ofParts p.anchor (trimIdleEnd rest.reverse))
  | [] => if p.anchor = .current then some ⟨""⟩ else none

/-- The last component, if it is a name. -/
def fileName? (p : Path) : Option String :=
  match p.components.getLast? with
  | some (.name text) => some text
  | _ => none

/-- The segments that are left once the given components have been walked. -/
def walkSegments : List Component → List (List Char) → Option (List (List Char))
  | [], segments => some segments
  | _ :: _, [] => none
  | c :: cs, s :: segments =>
    if isIdle s then walkSegments (c :: cs) segments
    else if Component.ofSegment s = c then walkSegments cs segments
    else none

/-- What is left of `p` below the directory `dir`, which begins as `p` does. -/
def below? (p dir : Path) : Option Path :=
  if dir.anchor = p.anchor then
    (walkSegments (componentsOf dir.segments) p.segments).map fun rest =>
      ofParts .none (trimIdleEnd (rest.dropWhile isIdle))
  else none

end Path

end CallPolicy
