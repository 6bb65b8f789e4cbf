import CallPolicy.Json.Decoding
import CallPolicy.TypeExpr.Basic

/-!
# Type expressions in JSON

How type expressions and signatures are written as JSON values, and how they are read.  What is
empty or absent is mostly left out when writing; reading takes it for its default.

## Termination

Writing is structural in the expression.  Reading is structural in the number of containers that may
still be opened.
-/

namespace CallPolicy

open Json (ofText ofNat ofMembers required defaulted fieldsOf optional?)

/-! ## Writing -/

/-- The name of a channel direction. -/
def ChanDir.label : ChanDir → String
  | .both => "both"
  | .send => "send"
  | .recv => "recv"

/-- A channel direction as a JSON value. -/
def ChanDir.encode (dir : ChanDir) : Json :=
  ofText dir.label

/-- A choice with its content. -/
def Json.choice (name : String) (content : Json) : Json :=
  ofMembers [(name, content)]

/-- The member for an optional name. -/
def Json.nameMember : Option String → List (String × Json)
  | none => []
  | some name => [("name", ofText name)]

/-- The member for a list that is left out when empty. -/
def Json.listMember (name : String) (items : List Json) : List (String × Json) :=
  if items.isEmpty then [] else [(name, .array items)]

mutual

/-- A type expression as a JSON value. -/
def TypeExpr.encode : TypeExpr → Json
  | .basic name => .choice "basic" (ofText name)
  | .named id => .choice "named" (ofNat id)
  | .pointer elem => .choice "pointer" elem.encode
  | .slice elem => .choice "slice" elem.encode
  | .array len elem => .choice "array" (ofMembers [("len", ofNat len), ("elem", elem.encode)])
  | .map key value => .choice "map" (ofMembers [("key", key.encode), ("value", value.encode)])
  | .chan dir elem => .choice "chan" (ofMembers [("dir", dir.encode), ("elem", elem.encode)])
  | .func signature => .choice "func" signature.encode
  | .struct fields => .choice "struct" (.array (Binding.encodeAll fields))
  | .interface methods => .choice "interface" (.array (Method.encodeAll methods))
  | .typeParam name => .choice "type_param" (ofText name)

/-- A signature as a JSON value. -/
def Signature.encode : Signature → Json
  | ⟨typeParams, params, results, variadic⟩ =>
    ofMembers (Json.listMember "type_params" (TypeParam.encodeAll typeParams) ++
      [("params", .array (Binding.encodeAll params)),
        ("results", .array (Binding.encodeAll results)), ("variadic", .bool variadic)])

/-- Bindings as JSON values. -/
def Binding.encodeAll : List Binding → List Json
  | [] => []
  | ⟨name, type⟩ :: rest =>
    ofMembers (Json.nameMember name ++ [("type", type.encode)]) :: Binding.encodeAll rest

/-- Type parameters as JSON values. -/
def TypeParam.encodeAll : List TypeParam → List Json
  | [] => []
  | ⟨name, constraint⟩ :: rest =>
    ofMembers [("name", ofText name), ("constraint", constraint.encode)] :: TypeParam.encodeAll rest

/-- Methods as JSON values. -/
def Method.encodeAll : List Method → List Json
  | [] => []
  | ⟨name, signature⟩ :: rest =>
    ofMembers [("name", ofText name), ("signature", signature.encode)] :: Method.encodeAll rest

end

/-- A binding as a JSON value. -/
def Binding.encode (b : Binding) : Json :=
  ofMembers (Json.nameMember b.name ++ [("type", b.type.encode)])

/-- A method as a JSON value. -/
def Method.encode (m : Method) : Json :=
  ofMembers [("name", ofText m.name), ("signature", m.signature.encode)]

/-! ## Reading

The flag `ahead` tells whether the value was read ahead. -/

/-- The channel direction with the given name. -/
def ChanDir.ofLabel? : String → Option ChanDir
  | "both" => some .both
  | "send" => some .send
  | "recv" => some .recv
  | _ => none

/-- A channel direction from a JSON value. -/
def ChanDir.decode (ahead : Bool) (depth : Nat) (value : Json) : Option ChanDir :=
  (Json.unitChoice? ahead depth value).bind ChanDir.ofLabel?

mutual

/-- A type expression from a JSON value. -/
def TypeExpr.decode (ahead : Bool) : Nat → Json → Option TypeExpr
  | _ + 1, .object [(some "basic", content)] => content.text?.map .basic
  | _ + 1, .object [(some "named", content)] => content.nat?.map .named
  | depth + 1, .object [(some "pointer", content)] =>
    (TypeExpr.decode ahead depth content).map .pointer
  | depth + 1, .object [(some "slice", content)] => (TypeExpr.decode ahead depth content).map .slice
  | depth + 1, .object [(some "array", content)] => TypeExpr.decodeArray ahead depth content
  | depth + 1, .object [(some "map", content)] => TypeExpr.decodeMap ahead depth content
  | depth + 1, .object [(some "chan", content)] => TypeExpr.decodeChan ahead depth content
  | depth + 1, .object [(some "func", content)] => (Signature.decode ahead depth content).map .func
  | depth + 1, .object [(some "struct", content)] =>
    (Binding.decodeAll ahead depth content).map .struct
  | depth + 1, .object [(some "interface", content)] =>
    (Method.decodeAll ahead depth content).map .interface
  | _ + 1, .object [(some "type_param", content)] => content.text?.map .typeParam
  | _, _ => none

/-- The content of an array type. -/
def TypeExpr.decodeArray (ahead : Bool) : Nat → Json → Option TypeExpr
  | 0, _ => none
  | depth + 1, content => do
    let fields ← fieldsOf ["len", "elem"] content
    let len ← required Json.nat? "len" fields
    let elem ← required (TypeExpr.decode ahead depth) "elem" fields
    some (.array len elem)

/-- The content of a map type. -/
def TypeExpr.decodeMap (ahead : Bool) : Nat → Json → Option TypeExpr
  | 0, _ => none
  | depth + 1, content => do
    let fields ← fieldsOf ["key", "value"] content
    let key ← required (TypeExpr.decode ahead depth) "key" fields
    let value ← required (TypeExpr.decode ahead depth) "value" fields
    some (.map key value)

/-- The content of a channel type. -/
def TypeExpr.decodeChan (ahead : Bool) : Nat → Json → Option TypeExpr
  | 0, _ => none
  | depth + 1, content => do
    let fields ← fieldsOf ["dir", "elem"] content
    let dir ← defaulted .both (ChanDir.decode ahead depth) "dir" fields
    let elem ← required (TypeExpr.decode ahead depth) "elem" fields
    some (.chan dir elem)

/-- A signature from a JSON value. -/
def Signature.decode (ahead : Bool) : Nat → Json → Option Signature
  | 0, _ => none
  | depth + 1, value => do
    let fields ← fieldsOf ["type_params", "params", "results", "variadic"] value
    let typeParams ← defaulted [] (TypeParam.decodeAll ahead depth) "type_params" fields
    let params ← defaulted [] (Binding.decodeAll ahead depth) "params" fields
    let results ← defaulted [] (Binding.decodeAll ahead depth) "results" fields
    let variadic ← defaulted false Json.bool? "variadic" fields
    some ⟨typeParams, params, results, variadic⟩

/-- A binding from a JSON value. -/
def Binding.decode (ahead : Bool) : Nat → Json → Option Binding
  | 0, _ => none
  | depth + 1, value => do
    let fields ← fieldsOf ["name", "type"] value
    let name ← defaulted none (optional? Json.text?) "name" fields
    let type ← required (TypeExpr.decode ahead depth) "type" fields
    some ⟨name, type⟩

/-- Bindings from a JSON value. -/
def Binding.decodeAll (ahead : Bool) : Nat → Json → Option (List Binding)
  | depth + 1, .array items => items.mapM (Binding.decode ahead depth)
  | _, _ => none

/-- A type parameter from a JSON value. -/
def TypeParam.decode (ahead : Bool) : Nat → Json → Option TypeParam
  | 0, _ => none
  | depth + 1, value => do
    let fields ← fieldsOf ["name", "constraint"] value
    let name ← required Json.text? "name" fields
    let constraint ← required (TypeExpr.decode ahead depth) "constraint" fields
    some ⟨name, constraint⟩

/-- Type parameters from a JSON value. -/
def TypeParam.decodeAll (ahead : Bool) : Nat → Json → Option (List TypeParam)
  | depth + 1, .array items => items.mapM (TypeParam.decode ahead depth)
  | _, _ => none

/-- A method from a JSON value. -/
def Method.decode (ahead : Bool) : Nat → Json → Option Method
  | 0, _ => none
  | depth + 1, value => do
    let fields ← fieldsOf ["name", "signature"] value
    let name ← required Json.text? "name" fields
    let signature ← required (Signature.decode ahead depth) "signature" fields
    some ⟨name, signature⟩

/-- Methods from a JSON value. -/
def Method.decodeAll (ahead : Bool) : Nat → Json → Option (List Method)
  | depth + 1, .array items => items.mapM (Method.decode ahead depth)
  | _, _ => none

end

end CallPolicy
