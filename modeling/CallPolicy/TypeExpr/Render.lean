import CallPolicy.TypeExpr.Basic

/-!
# The text of a type expression

The text of a type depends on the types it is built from and on how declared types are written; the
latter is a parameter.  Names of parameters, results and receivers are left out.

Two texts look at the shape below them.  A channel of receive-only channels needs parentheses,
because `chan <-chan T` reads as a send-only channel, and a variadic last parameter shows the
element type of its slice.

## Termination

The functions are structural in the expression.
-/

namespace CallPolicy

/-- Printed in place of a number that is missing from the table. -/
def invalidType : String := "<invalid type>"

/-- How a channel's text begins. -/
def ChanDir.marker : ChanDir → String
  | .both => "chan "
  | .send => "chan<- "
  | .recv => "<-chan "

/-- The element of a channel needs parentheses. -/
def ChanDir.encloses : ChanDir → TypeExpr → Bool
  | .both, .chan .recv _ => true
  | _, _ => false

/-- The results after the parameter list: nothing, one bare type, or several in parentheses. -/
def Signature.resultsText : List String → String
  | [] => ""
  | [single] => " " ++ single
  | many => " (" ++ ", ".intercalate many ++ ")"

/-- The type parameters before the parameter list, if there are any. -/
def Signature.typeParamsText : List String → String
  | [] => ""
  | texts => "[" ++ ", ".intercalate texts ++ "]"

mutual

/-- The text of a type, where `refer` writes declared types. -/
def TypeExpr.render (refer : Nat → String) : TypeExpr → String
  | .basic name => name
  | .typeParam name => name
  | .named id => refer id
  | .pointer elem => "*" ++ elem.render refer
  | .slice elem => "[]" ++ elem.render refer
  | .array len elem => "[" ++ Nat.repr len ++ "]" ++ elem.render refer
  | .map key value => "map[" ++ key.render refer ++ "]" ++ value.render refer
  | .chan dir elem =>
    if dir.encloses elem then dir.marker ++ "(" ++ elem.render refer ++ ")"
    else dir.marker ++ elem.render refer
  | .func signature => "func" ++ signature.render refer
  | .struct fields => "struct\x7b" ++ "; ".intercalate (Binding.fieldTexts refer fields) ++ "\x7d"
  | .interface methods =>
    "interface\x7b" ++ "; ".intercalate (Method.texts refer methods) ++ "\x7d"

/-- The text of a signature, from the type parameters to the results. -/
def Signature.render (refer : Nat → String) : Signature → String
  | ⟨typeParams, params, results, variadic⟩ =>
    Signature.typeParamsText (TypeParam.texts refer typeParams) ++
      "(" ++ ", ".intercalate (Binding.paramTexts refer variadic params) ++ ")" ++
      Signature.resultsText (Binding.typeTexts refer results)

/-- The types of bindings. -/
def Binding.typeTexts (refer : Nat → String) : List Binding → List String
  | [] => []
  | ⟨_, type⟩ :: rest => type.render refer :: Binding.typeTexts refer rest

/-- The types of parameters; the last one of a variadic list shows what its slice holds. -/
def Binding.paramTexts (refer : Nat → String) (variadic : Bool) : List Binding → List String
  | [] => []
  | [⟨_, .slice elem⟩] =>
    if variadic then ["..." ++ elem.render refer] else ["[]" ++ elem.render refer]
  | [⟨_, type⟩] => if variadic then ["..." ++ type.render refer] else [type.render refer]
  | ⟨_, type⟩ :: next :: rest =>
    type.render refer :: Binding.paramTexts refer variadic (next :: rest)

/-- Fields of a struct, with their names. -/
def Binding.fieldTexts (refer : Nat → String) : List Binding → List String
  | [] => []
  | ⟨none, type⟩ :: rest => type.render refer :: Binding.fieldTexts refer rest
  | ⟨some name, type⟩ :: rest =>
    (name ++ " " ++ type.render refer) :: Binding.fieldTexts refer rest

/-- Type parameters with their constraints. -/
def TypeParam.texts (refer : Nat → String) : List TypeParam → List String
  | [] => []
  | ⟨name, constraint⟩ :: rest =>
    (name ++ " " ++ constraint.render refer) :: TypeParam.texts refer rest

/-- Methods of an interface. -/
def Method.texts (refer : Nat → String) : List Method → List String
  | [] => []
  | ⟨name, signature⟩ :: rest => (name ++ signature.render refer) :: Method.texts refer rest

end

end CallPolicy
