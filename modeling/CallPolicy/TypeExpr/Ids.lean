import CallPolicy.TypeExpr.Basic

/-!
# The numbers in a type expression

Two traversals of a type expression: `ids` lists the table numbers in it, in the order in which they
are written, and `shift` adds an offset to each of them, for use with a table that was appended to
another one.

## Main statement

* `TypeExpr.ids_shift` — shifting adds the offset to each number and nothing else, in order.
-/

namespace CallPolicy

/-! ## The numbers, in order -/

mutual

/-- The table numbers in a type expression. -/
def TypeExpr.ids : TypeExpr → List Nat
  | .basic _ => []
  | .typeParam _ => []
  | .named id => [id]
  | .pointer elem => elem.ids
  | .slice elem => elem.ids
  | .array _ elem => elem.ids
  | .map key value => key.ids ++ value.ids
  | .chan _ elem => elem.ids
  | .func signature => signature.ids
  | .struct fields => Binding.listIds fields
  | .interface methods => Method.listIds methods

/-- The table numbers in a signature: type parameters first, then parameters, then results. -/
def Signature.ids : Signature → List Nat
  | ⟨typeParams, params, results, _⟩ =>
    TypeParam.listIds typeParams ++ (Binding.listIds params ++ Binding.listIds results)

/-- The table numbers in bindings. -/
def Binding.listIds : List Binding → List Nat
  | [] => []
  | ⟨_, type⟩ :: rest => type.ids ++ Binding.listIds rest

/-- The table numbers in type parameters. -/
def TypeParam.listIds : List TypeParam → List Nat
  | [] => []
  | ⟨_, constraint⟩ :: rest => constraint.ids ++ TypeParam.listIds rest

/-- The table numbers in methods. -/
def Method.listIds : List Method → List Nat
  | [] => []
  | ⟨_, signature⟩ :: rest => signature.ids ++ Method.listIds rest

end

/-! ## Shifting -/

mutual

/-- The type expression with `k` added to each table number. -/
def TypeExpr.shift (k : Nat) : TypeExpr → TypeExpr
  | .basic name => .basic name
  | .typeParam name => .typeParam name
  | .named id => .named (id + k)
  | .pointer elem => .pointer (elem.shift k)
  | .slice elem => .slice (elem.shift k)
  | .array len elem => .array len (elem.shift k)
  | .map key value => .map (key.shift k) (value.shift k)
  | .chan dir elem => .chan dir (elem.shift k)
  | .func signature => .func (signature.shift k)
  | .struct fields => .struct (Binding.listShift k fields)
  | .interface methods => .interface (Method.listShift k methods)

/-- The signature with `k` added to each table number. -/
def Signature.shift (k : Nat) : Signature → Signature
  | ⟨typeParams, params, results, variadic⟩ =>
    ⟨TypeParam.listShift k typeParams, Binding.listShift k params, Binding.listShift k results,
      variadic⟩

/-- The bindings with `k` added to each table number. -/
def Binding.listShift (k : Nat) : List Binding → List Binding
  | [] => []
  | ⟨name, type⟩ :: rest => ⟨name, type.shift k⟩ :: Binding.listShift k rest

/-- The type parameters with `k` added to each table number. -/
def TypeParam.listShift (k : Nat) : List TypeParam → List TypeParam
  | [] => []
  | ⟨name, constraint⟩ :: rest => ⟨name, constraint.shift k⟩ :: TypeParam.listShift k rest

/-- The methods with `k` added to each table number. -/
def Method.listShift (k : Nat) : List Method → List Method
  | [] => []
  | ⟨name, signature⟩ :: rest => ⟨name, signature.shift k⟩ :: Method.listShift k rest

end

/-- The binding with `k` added to each table number. -/
def Binding.shift (k : Nat) (b : Binding) : Binding :=
  ⟨b.name, b.type.shift k⟩

/-! ## The two together -/

mutual

/-- Shifting adds the offset to each number, in order. -/
theorem TypeExpr.ids_shift (k : Nat) : ∀ t : TypeExpr, (t.shift k).ids = t.ids.map (· + k)
  | .basic _ => rfl
  | .typeParam _ => rfl
  | .named _ => rfl
  | .pointer elem => by simpa [TypeExpr.shift, TypeExpr.ids] using elem.ids_shift k
  | .slice elem => by simpa [TypeExpr.shift, TypeExpr.ids] using elem.ids_shift k
  | .array _ elem => by simpa [TypeExpr.shift, TypeExpr.ids] using elem.ids_shift k
  | .map key value => by
    simp [TypeExpr.shift, TypeExpr.ids, key.ids_shift k, value.ids_shift k]
  | .chan _ elem => by simpa [TypeExpr.shift, TypeExpr.ids] using elem.ids_shift k
  | .func signature => by simpa [TypeExpr.shift, TypeExpr.ids] using signature.ids_shift k
  | .struct fields => by simpa [TypeExpr.shift, TypeExpr.ids] using Binding.listIds_shift k fields
  | .interface methods => by
    simpa [TypeExpr.shift, TypeExpr.ids] using Method.listIds_shift k methods

theorem Signature.ids_shift (k : Nat) : ∀ s : Signature, (s.shift k).ids = s.ids.map (· + k)
  | ⟨typeParams, params, results, _⟩ => by
    simp [Signature.shift, Signature.ids, TypeParam.listIds_shift k typeParams,
      Binding.listIds_shift k params, Binding.listIds_shift k results]

theorem Binding.listIds_shift (k : Nat) :
    ∀ bs : List Binding, Binding.listIds (Binding.listShift k bs) = (Binding.listIds bs).map (· + k)
  | [] => rfl
  | ⟨_, type⟩ :: rest => by
    simp [Binding.listShift, Binding.listIds, type.ids_shift k, Binding.listIds_shift k rest]

theorem TypeParam.listIds_shift (k : Nat) :
    ∀ ps : List TypeParam,
      TypeParam.listIds (TypeParam.listShift k ps) = (TypeParam.listIds ps).map (· + k)
  | [] => rfl
  | ⟨_, constraint⟩ :: rest => by
    simp [TypeParam.listShift, TypeParam.listIds, constraint.ids_shift k,
      TypeParam.listIds_shift k rest]

theorem Method.listIds_shift (k : Nat) :
    ∀ ms : List Method, Method.listIds (Method.listShift k ms) = (Method.listIds ms).map (· + k)
  | [] => rfl
  | ⟨_, signature⟩ :: rest => by
    simp [Method.listShift, Method.listIds, signature.ids_shift k, Method.listIds_shift k rest]

end

end CallPolicy
