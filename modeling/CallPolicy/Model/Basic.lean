import CallPolicy.Model.Package
import CallPolicy.Symbol
import CallPolicy.TypeDef

/-!
# Program models

A program model is a snapshot of a program: the packages to analyze, and the symbols and declared
types they refer to by number.  A model is consistent if every number is in range; `findDangling?`
finds the first one that is not.  Models are combined by appending: the numbers of the second one
are shifted past those of the first.
-/

namespace CallPolicy

/-- A snapshot of a program. -/
structure Model where
  packages : List Package := []
  symbols : List Symbol := []
  types : TypeTable := []

/-- A number that points at nothing, and where it stands. -/
inductive Dangling where
  /-- The occurrence's symbol is missing. -/
  | symbol (id : Nat) (use : Position)
  /-- An entry of the type table refers to a missing entry. -/
  | typeInDef (id : Nat) (owner : Nat) (name : String)
  /-- A symbol refers to a missing entry of the type table. -/
  | typeInSymbol (id : Nat) (name : String)
deriving DecidableEq, Repr

/-- What is dangling, for a message. -/
def Dangling.describe : Dangling → String
  | .symbol id use => "symbol #" ++ Nat.repr id ++ " used at " ++ use.render
  | .typeInDef id owner name =>
    "type #" ++ Nat.repr id ++ " referenced by type #" ++ Nat.repr owner ++ " (" ++ name ++ ")"
  | .typeInSymbol id name => "type #" ++ Nat.repr id ++ " referenced by symbol " ++ name

namespace Model

/-- The model of nothing. -/
def empty : Model := {}

instance : Inhabited Model := ⟨empty⟩

/-! ## Growing a model -/

/-- The model with one more package. -/
def addPackage (m : Model) (p : Package) : Model :=
  { m with packages := m.packages ++ [p] }

/-- The model with one more symbol, which gets the next number. -/
def addSymbol (m : Model) (s : Symbol) : Model :=
  { m with symbols := m.symbols ++ [s] }

/-- The model with one more declared type, which gets the next number. -/
def addType (m : Model) (d : TypeDef) : Model :=
  { m with types := m.types ++ [d] }

/-- The model with the entry `id` of the type table replaced, if there is one. -/
def setType? (m : Model) (id : Nat) (d : TypeDef) : Option Model :=
  if id < m.types.length then some { m with types := m.types.set id d } else none

/-- The model with another one appended, whose numbers are shifted past those of the first. -/
def merge (a b : Model) : Model where
  packages := a.packages ++ b.packages.map (Package.shiftSymbols a.symbols.length)
  -- symbols are not referred to by symbols, only their types are shifted
  symbols := a.symbols ++ b.symbols.map (Symbol.shift a.types.length)
  types := a.types ++ b.types.map (TypeDef.shift a.types.length)

/-- The model with `f` applied to each file path in it. -/
def mapPaths (f : Path → Path) (m : Model) : Model :=
  { m with packages := m.packages.map (Package.mapPaths f) }

/-- Merging with nothing changes nothing. -/
theorem merge_empty (m : Model) : m.merge empty = m := by
  simp [merge, empty]

/-! ## Consistency -/

/-- The first number of `ids` that is not below `bound`. -/
def firstOutside? (bound : Nat) (ids : List Nat) : Option Nat :=
  ids.find? fun id => !decide (id < bound)

theorem firstOutside?_eq_none_iff {bound : Nat} {ids : List Nat} :
    firstOutside? bound ids = none ↔ ∀ id ∈ ids, id < bound := by
  simp [firstOutside?]

/-- The first occurrence of a package that names a missing symbol. -/
def danglingUse? (bound : Nat) (p : Package) : Option Dangling :=
  p.uses.findSome? fun use =>
    if use.symbol < bound then none else some (.symbol use.symbol use.position)

/-- The first entry of a numbered table that refers to a missing entry. -/
def danglingDef? (bound : Nat) (entry : TypeDef × Nat) : Option Dangling :=
  (firstOutside? bound entry.1.ids).map fun id => .typeInDef id entry.2 entry.1.name

/-- The reference of a symbol to a missing entry. -/
def danglingSymbol? (bound : Nat) (s : Symbol) : Option Dangling :=
  (firstOutside? bound s.ids).map fun id => .typeInSymbol id s.name

/-- The first number that points at nothing: first the uses of packages are looked at, then the
type table, then the symbols. -/
def findDangling? (m : Model) : Option Dangling :=
  (m.packages.findSome? (danglingUse? m.symbols.length)).or
    ((m.types.zipIdx.findSome? (danglingDef? m.types.length)).or
      (m.symbols.findSome? (danglingSymbol? m.types.length)))

/-- Every number of the model is in range. -/
def isConsistent (m : Model) : Bool :=
  m.findDangling?.isNone

end Model

end CallPolicy
