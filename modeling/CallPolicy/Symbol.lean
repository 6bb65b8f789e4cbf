import CallPolicy.ModulePath
import CallPolicy.TypeExpr.Ids

/-!
# Symbols

What an identifier in the source resolves to.  Functions and methods are *callable*; only they have
a canonical signature.
-/

namespace CallPolicy

/-- What a symbol is. -/
inductive Symbol.Kind where
  | function (signature : Signature)
  | method (receiver : Binding) (signature : Signature)
  | variable
  | constant
  | typeName

/-- A resolved symbol. -/
structure Symbol where
  name : String
  module : ModulePath
  kind : Symbol.Kind

namespace Symbol

/-- The symbol is a function or a method. -/
def isCallable (s : Symbol) : Bool :=
  match s.kind with
  | .function _ | .method _ _ => true
  | _ => false

/-- The table numbers in a kind: the receiver first, then the signature. -/
def Kind.ids : Kind → List Nat
  | .function signature => signature.ids
  | .method receiver signature => receiver.type.ids ++ signature.ids
  | .variable => []
  | .constant => []
  | .typeName => []

/-- The kind with `k` added to each table number. -/
def Kind.shift (k : Nat) : Kind → Kind
  | .function signature => .function (signature.shift k)
  | .method receiver signature => .method (receiver.shift k) (signature.shift k)
  | .variable => .variable
  | .constant => .constant
  | .typeName => .typeName

/-- The table numbers in a symbol. -/
def ids (s : Symbol) : List Nat :=
  s.kind.ids

/-- The symbol with `k` added to each table number. -/
def shift (k : Nat) (s : Symbol) : Symbol :=
  { s with kind := s.kind.shift k }

/-- Shifting adds the offset to each number of a symbol, in order. -/
theorem ids_shift (k : Nat) (s : Symbol) : (s.shift k).ids = s.ids.map (· + k) := by
  obtain ⟨name, module, kind⟩ := s
  cases kind <;>
    simp [shift, ids, Kind.shift, Kind.ids, Binding.shift, TypeExpr.ids_shift, Signature.ids_shift]

end Symbol

end CallPolicy
