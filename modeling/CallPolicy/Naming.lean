import CallPolicy.Symbol
import CallPolicy.TypeDef
import CallPolicy.TypeExpr.Render

/-!
# Canonical signatures

The canonical signature is the identity of a function or method as text, for instance

    func (*net/http.Client).Do(*net/http.Request) (*net/http.Response, error)

It leaves out the names of parameters, results and receivers, writes each module by its origin, and
writes an alias as the type it stands for.  It depends on the symbol, the table of declared types
and the origin map only.

## Termination

A declared type is written by looking into its table entry, and entries may refer to one another in
a ring.  The numbers that are being expanded are carried along in `active`; one that is met again is
written as a back-reference.  `refer` is structural in a budget.  No number is expanded inside
itself, so a budget as large as the table is never used up.
-/

namespace CallPolicy

/-- What is needed to write a type: the table of declared types and the origins of modules. -/
structure Naming where
  types : TypeTable
  origins : OriginMap

namespace Naming

/-- A name after the origin of its module; the empty origin is left out. -/
def qualified (n : Naming) (module : ModulePath) (name : String) : String :=
  let origin := n.origins.origin module
  if origin.isEmpty then name else origin ++ "." ++ name

/-- A back-reference to an entry that is being written. -/
def backReference (n : Naming) (d : TypeDef) : String :=
  "<cycle: " ++ n.qualified d.module d.name ++ ">"

/-- An entry, where `inner` writes the numbers in it: an alias as its target, a defined type as its
qualified name with the type arguments. -/
def entryText (n : Naming) (inner : Nat → String) (d : TypeDef) : String :=
  match d.kind with
  | .alias target => target.render inner
  | .defined _ =>
    n.qualified d.module d.name ++
      Signature.typeParamsText (d.args.map fun arg => arg.render inner)

/-- The declared type with number `id`, while the numbers `active` are being written. -/
def refer (n : Naming) : Nat → List Nat → Nat → String
  | 0, _, id =>
    match n.types[id]? with
    | none => invalidType
    | some d => n.backReference d
  | budget + 1, active, id =>
    match n.types[id]? with
    | none => invalidType
    | some d =>
      -- met inside its own expansion
      if id ∈ active then n.backReference d
      else n.entryText (n.refer budget (id :: active)) d

/-- A declared type on its own. -/
def typeRef (n : Naming) (id : Nat) : String :=
  n.refer n.types.length [] id

/-- The text of a type. -/
def typeText (n : Naming) (t : TypeExpr) : String :=
  t.render n.typeRef

/-- The text of a signature. -/
def signatureText (n : Naming) (s : Signature) : String :=
  s.render n.typeRef

/-- The canonical signature of a symbol; only functions and methods have one. -/
def canonical? (n : Naming) (s : Symbol) : Option String :=
  match s.kind with
  | .function signature =>
    some ("func " ++ n.qualified s.module s.name ++ n.signatureText signature)
  | .method receiver signature =>
    some ("func (" ++ n.typeText receiver.type ++ ")." ++ s.name ++ n.signatureText signature)
  | .variable | .constant | .typeName => none

/-- A symbol has a canonical signature exactly if it is callable. -/
theorem isSome_canonical? (n : Naming) (s : Symbol) : (n.canonical? s).isSome = s.isCallable := by
  obtain ⟨name, module, kind⟩ := s
  cases kind <;> rfl

end Naming

end CallPolicy
