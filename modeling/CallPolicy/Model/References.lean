import CallPolicy.Model.Basic
import CallPolicy.Naming
import CallPolicy.OrderedMap

/-!
# The references of a package

A reference is an occurrence of a function or method, with the canonical signature of what it refers
to.  A package's references are listed in the order of their positions, one for each position; where
several occurrences of functions share a position, the last one counts.
-/

namespace CallPolicy

/-- A use of a function or method. -/
structure Reference where
  position : Position
  signature : String
deriving DecidableEq, Repr, Inhabited

namespace Model

/-- The canonical signature behind an occurrence; none for anything but functions and methods. -/
def signatureAt? (m : Model) (origins : OriginMap) (use : Occurrence) : Option String :=
  (m.symbols[use.symbol]?).bind (Naming.canonical? ⟨m.types, origins⟩)

/-- The canonical signatures of all symbols.  Each is worked out when it is first asked for, and
then kept. -/
def signatures (m : Model) (origins : OriginMap) : List (Thunk (Option String)) :=
  m.symbols.map fun s => .mk fun _ => Naming.canonical? ⟨m.types, origins⟩ s

/-- What is asked of the signatures of all symbols is the signature behind an occurrence. -/
theorem bind_get_signatures (m : Model) (origins : OriginMap) (use : Occurrence) :
    ((m.signatures origins)[use.symbol]?).bind Thunk.get = m.signatureAt? origins use := by
  simp only [signatures, signatureAt?, List.getElem?_map]
  cases m.symbols[use.symbol]? <;> rfl

/-- The occurrences of functions and methods, as positions with signatures. -/
def found (signatures : List (Thunk (Option String))) (uses : List Occurrence) :
    List (Position × String) :=
  uses.filterMap fun use =>
    ((signatures[use.symbol]?).bind Thunk.get).map fun signature => (use.position, signature)

/-- The signatures referred to, by position. -/
def referenceMap (m : Model) (origins : OriginMap) (p : Package) : OrderedMap Position String :=
  .ofList (found (m.signatures origins) p.uses)

/-- The references of a package come from its occurrences, each with the signature behind it. -/
theorem referenceMap_eq (m : Model) (origins : OriginMap) (p : Package) :
    m.referenceMap origins p = .ofList (p.uses.filterMap fun use =>
      (m.signatureAt? origins use).map fun signature => (use.position, signature)) := by
  simp only [referenceMap, found, bind_get_signatures]

/-- The references of a package, in the order of their positions. -/
def references (m : Model) (origins : OriginMap) (p : Package) : List Reference :=
  (m.referenceMap origins p).entries.map fun e => ⟨e.1, e.2⟩

end Model

end CallPolicy
