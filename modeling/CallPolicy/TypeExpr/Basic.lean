/-!
# Type expressions and signatures

A type expression describes a type by its shape.  Declared types are not described in place: they
stand in a table, and an expression refers to them by number, so descriptions of mutually recursive
types stay finite.
-/

namespace CallPolicy

/-- The direction in which a channel may be used. -/
inductive ChanDir where
  | both
  | send
  | recv
deriving DecidableEq, Repr, Inhabited

mutual

/-- The shape of a type. -/
inductive TypeExpr where
  /-- A predeclared type such as `int`. -/
  | basic (name : String)
  /-- The declared type with the given number in the table. -/
  | named (id : Nat)
  /-- A pointer. -/
  | pointer (elem : TypeExpr)
  /-- A slice. -/
  | slice (elem : TypeExpr)
  /-- An array of fixed length. -/
  | array (len : Nat) (elem : TypeExpr)
  /-- A map. -/
  | map (key value : TypeExpr)
  /-- A channel. -/
  | chan (dir : ChanDir) (elem : TypeExpr)
  /-- A function. -/
  | func (signature : Signature)
  /-- A struct without a name; a field without a name is embedded. -/
  | struct (fields : List Binding)
  /-- An interface without a name. -/
  | interface (methods : List Method)
  /-- A type parameter of the declaration around it. -/
  | typeParam (name : String)

/-- The parameters and results of a function. -/
structure Signature where
  typeParams : List TypeParam := []
  params : List Binding := []
  results : List Binding := []
  /-- The last parameter takes any number of arguments; its type is then a slice. -/
  variadic : Bool := false

/-- A type with an optional name: a parameter, a result, a receiver or a field. -/
structure Binding where
  name : Option String
  type : TypeExpr

/-- A type parameter with its constraint. -/
structure TypeParam where
  name : String
  constraint : TypeExpr

/-- A method of an interface. -/
structure Method where
  name : String
  signature : Signature

end

instance : Inhabited TypeExpr := ⟨.basic ""⟩
instance : Inhabited Signature := ⟨{}⟩

namespace Signature

/-- The signature with one more parameter. -/
def addParam (s : Signature) (name : Option String) (type : TypeExpr) : Signature :=
  { s with params := s.params ++ [⟨name, type⟩] }

/-- The signature with one more result. -/
def addResult (s : Signature) (name : Option String) (type : TypeExpr) : Signature :=
  { s with results := s.results ++ [⟨name, type⟩] }

/-- The signature with one more type parameter. -/
def addTypeParam (s : Signature) (name : String) (constraint : TypeExpr) : Signature :=
  { s with typeParams := s.typeParams ++ [⟨name, constraint⟩] }

/-- The signature whose last parameter takes any number of arguments. -/
def makeVariadic (s : Signature) : Signature :=
  { s with variadic := true }

end Signature

end CallPolicy
