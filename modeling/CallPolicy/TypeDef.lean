import CallPolicy.ModulePath
import CallPolicy.TypeExpr.Ids

/-!
# Declared types

A table of declared types.  An entry is either a *defined* type, which is known by its name, or an
*alias*, which stands for another type.
-/

namespace CallPolicy

/-- What a declared type is. -/
inductive TypeDef.Kind where
  /-- A type of its own; the underlying type may refer back to it. -/
  | defined (underlying : TypeExpr)
  /-- Another name for the target. -/
  | alias (target : TypeExpr)

/-- A declared type. -/
structure TypeDef where
  module : ModulePath
  name : String
  /-- The type arguments of an instance of a generic type. -/
  args : List TypeExpr := []
  kind : TypeDef.Kind

/-- The declared types of a program, by number. -/
abbrev TypeTable := List TypeDef

namespace TypeDef

/-- The type that the entry is declared with. -/
def Kind.body : Kind → TypeExpr
  | .defined underlying => underlying
  | .alias target => target

/-- The kind with `k` added to each table number. -/
def Kind.shift (k : Nat) : Kind → Kind
  | .defined underlying => .defined (underlying.shift k)
  | .alias target => .alias (target.shift k)

/-- The table numbers in an entry: the arguments first, then the body. -/
def ids (d : TypeDef) : List Nat :=
  d.args.flatMap TypeExpr.ids ++ d.kind.body.ids

/-- The entry with `k` added to each table number. -/
def shift (k : Nat) (d : TypeDef) : TypeDef :=
  { d with args := d.args.map (TypeExpr.shift k), kind := d.kind.shift k }

@[simp]
theorem Kind.body_shift (k : Nat) (kind : Kind) : (kind.shift k).body = kind.body.shift k := by
  cases kind <;> rfl

/-- Shifting adds the offset to each number of an entry, in order. -/
theorem ids_shift (k : Nat) (d : TypeDef) : (d.shift k).ids = d.ids.map (· + k) := by
  simp [ids, shift, TypeExpr.ids_shift, List.flatMap_map, List.map_flatMap]

end TypeDef

end CallPolicy
