import CallPolicy.ResolveError

/-!
# Selecting packages by import path

A specifier selects packages of a model: `...` selects all of them, `P/...` selects `P` and the
packages below it, anything else selects the package of that path.  A leading `./` is ignored, and
`.` also selects the package with the empty path.  A specifier other than `...` must select
something.
-/

namespace CallPolicy

/-- The specifier that selects everything below the working directory. -/
def allPackages : String := "./..."

namespace Model

/-- A specifier without one leading `./`. -/
def plainSpec (spec : String) : List Char :=
  (Text.after? "./".toList spec.toList).getD spec.toList

/-- The specifier selects every package. -/
def selectsAll (spec : String) : Bool :=
  plainSpec spec = "...".toList

/-- The path is `base` or below it. -/
def isWithin (base path : List Char) : Bool :=
  match Text.after? base path with
  | some [] => true
  | some (c :: _) => c == '/'
  | none => false

/-- The specifier selects the package with the given path. -/
def selects (spec path : String) : Bool :=
  let plain := plainSpec spec
  selectsAll spec || (plain = ['.'] && path.isEmpty) ||
    match Text.before? "/...".toList plain with
    | some base => isWithin base path.toList
    | none => path.toList = plain

/-- The first specifier that selects nothing and ought to. -/
def unmatchedSpec? (m : Model) (specs : List String) : Option String :=
  specs.find? fun spec => !selectsAll spec && !m.packages.any fun p => selects spec p.path

/-- The model with the packages that some specifier selects; without specifiers, all of them. -/
def select (m : Model) (specs : List String) (dir : Path) : Except ResolveError Model :=
  if specs.isEmpty then .ok m
  else
    match m.unmatchedSpec? specs with
    | some spec => .error (.notFound spec dir)
    | none => .ok { m with packages := m.packages.filter fun p => specs.any (selects · p.path) }

end Model

end CallPolicy
