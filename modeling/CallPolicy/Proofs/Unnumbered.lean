import CallPolicy.Symbol
import CallPolicy.TypeDef

/-!
# Items without their numbers

An item is a type, a signature, an entry of the table or a symbol.  It consists of its table numbers
and of all the rest: names, lengths, directions, flags, and how they are put together.  The rest is
what stays if each number is replaced by zero.

Nothing else makes up an item.  Two items with the same rest and the same numbers, in the order in
which they are collected, are the same; so neither the replacement nor the collection passes over
anything that the other one leaves out.

## Main statements

* `TypeExpr.unnumbered_shift`, and the same for the other items — a shift keeps the rest.
* `TypeExpr.eq_of_unnumbered_eq`, and the same for the other items — an item is determined by its
  rest and its numbers.
-/

namespace CallPolicy

/-! ## The rest of an item -/

mutual

/-- The type expression with zero in place of each table number. -/
def TypeExpr.unnumbered : TypeExpr → TypeExpr
  | .basic name => .basic name
  | .typeParam name => .typeParam name
  | .named _ => .named 0
  | .pointer elem => .pointer elem.unnumbered
  | .slice elem => .slice elem.unnumbered
  | .array len elem => .array len elem.unnumbered
  | .map key value => .map key.unnumbered value.unnumbered
  | .chan dir elem => .chan dir elem.unnumbered
  | .func signature => .func signature.unnumbered
  | .struct fields => .struct (Binding.listUnnumbered fields)
  | .interface methods => .interface (Method.listUnnumbered methods)

/-- The signature with zero in place of each table number. -/
def Signature.unnumbered : Signature → Signature
  | ⟨typeParams, params, results, variadic⟩ =>
    ⟨TypeParam.listUnnumbered typeParams, Binding.listUnnumbered params,
      Binding.listUnnumbered results, variadic⟩

/-- The bindings with zero in place of each table number. -/
def Binding.listUnnumbered : List Binding → List Binding
  | [] => []
  | ⟨name, type⟩ :: rest => ⟨name, type.unnumbered⟩ :: Binding.listUnnumbered rest

/-- The type parameters with zero in place of each table number. -/
def TypeParam.listUnnumbered : List TypeParam → List TypeParam
  | [] => []
  | ⟨name, constraint⟩ :: rest => ⟨name, constraint.unnumbered⟩ :: TypeParam.listUnnumbered rest

/-- The methods with zero in place of each table number. -/
def Method.listUnnumbered : List Method → List Method
  | [] => []
  | ⟨name, signature⟩ :: rest => ⟨name, signature.unnumbered⟩ :: Method.listUnnumbered rest

end

/-- The binding with zero in place of each table number. -/
def Binding.unnumbered (b : Binding) : Binding :=
  ⟨b.name, b.type.unnumbered⟩

/-- The kind with zero in place of each table number. -/
def TypeDef.Kind.unnumbered : TypeDef.Kind → TypeDef.Kind
  | .defined underlying => .defined underlying.unnumbered
  | .alias target => .alias target.unnumbered

/-- The entry with zero in place of each table number. -/
def TypeDef.unnumbered (d : TypeDef) : TypeDef :=
  { d with args := d.args.map TypeExpr.unnumbered, kind := d.kind.unnumbered }

/-- The kind with zero in place of each table number. -/
def Symbol.Kind.unnumbered : Symbol.Kind → Symbol.Kind
  | .function signature => .function signature.unnumbered
  | .method receiver signature => .method receiver.unnumbered signature.unnumbered
  | .variable => .variable
  | .constant => .constant
  | .typeName => .typeName

/-- The symbol with zero in place of each table number. -/
def Symbol.unnumbered (s : Symbol) : Symbol :=
  { s with kind := s.kind.unnumbered }

/-! ## Shifts keep the rest -/

mutual

/-- A shift changes nothing but the numbers. -/
theorem TypeExpr.unnumbered_shift (k : Nat) : ∀ t : TypeExpr, (t.shift k).unnumbered = t.unnumbered
  | .basic _ => rfl
  | .typeParam _ => rfl
  | .named _ => rfl
  | .pointer elem => congrArg TypeExpr.pointer (elem.unnumbered_shift k)
  | .slice elem => congrArg TypeExpr.slice (elem.unnumbered_shift k)
  | .array len elem => congrArg (TypeExpr.array len) (elem.unnumbered_shift k)
  | .map key value => by
    rw [TypeExpr.shift, TypeExpr.unnumbered, TypeExpr.unnumbered, key.unnumbered_shift k,
      value.unnumbered_shift k]
  | .chan dir elem => congrArg (TypeExpr.chan dir) (elem.unnumbered_shift k)
  | .func signature => congrArg TypeExpr.func (signature.unnumbered_shift k)
  | .struct fields => congrArg TypeExpr.struct (Binding.listUnnumbered_shift k fields)
  | .interface methods => congrArg TypeExpr.interface (Method.listUnnumbered_shift k methods)

theorem Signature.unnumbered_shift (k : Nat) :
    ∀ s : Signature, (s.shift k).unnumbered = s.unnumbered
  | ⟨typeParams, params, results, _⟩ => by
    rw [Signature.shift, Signature.unnumbered, Signature.unnumbered,
      TypeParam.listUnnumbered_shift k typeParams, Binding.listUnnumbered_shift k params,
      Binding.listUnnumbered_shift k results]

theorem Binding.listUnnumbered_shift (k : Nat) :
    ∀ bs : List Binding,
      Binding.listUnnumbered (Binding.listShift k bs) = Binding.listUnnumbered bs
  | [] => rfl
  | ⟨_, type⟩ :: rest => by
    rw [Binding.listShift, Binding.listUnnumbered, Binding.listUnnumbered, type.unnumbered_shift k,
      Binding.listUnnumbered_shift k rest]

theorem TypeParam.listUnnumbered_shift (k : Nat) :
    ∀ ps : List TypeParam,
      TypeParam.listUnnumbered (TypeParam.listShift k ps) = TypeParam.listUnnumbered ps
  | [] => rfl
  | ⟨_, constraint⟩ :: rest => by
    rw [TypeParam.listShift, TypeParam.listUnnumbered, TypeParam.listUnnumbered,
      constraint.unnumbered_shift k, TypeParam.listUnnumbered_shift k rest]

theorem Method.listUnnumbered_shift (k : Nat) :
    ∀ ms : List Method, Method.listUnnumbered (Method.listShift k ms) = Method.listUnnumbered ms
  | [] => rfl
  | ⟨_, signature⟩ :: rest => by
    rw [Method.listShift, Method.listUnnumbered, Method.listUnnumbered,
      signature.unnumbered_shift k, Method.listUnnumbered_shift k rest]

end

theorem TypeDef.unnumbered_shift (k : Nat) (d : TypeDef) :
    (d.shift k).unnumbered = d.unnumbered := by
  obtain ⟨module, name, args, kind⟩ := d
  cases kind <;>
    simp [TypeDef.shift, TypeDef.unnumbered, Kind.shift, Kind.unnumbered,
      TypeExpr.unnumbered_shift]

theorem Symbol.unnumbered_shift (k : Nat) (s : Symbol) :
    (s.shift k).unnumbered = s.unnumbered := by
  obtain ⟨name, module, kind⟩ := s
  cases kind <;>
    simp [Symbol.shift, Symbol.unnumbered, Kind.shift, Kind.unnumbered, Binding.shift,
      Binding.unnumbered, TypeExpr.unnumbered_shift, Signature.unnumbered_shift]

/-! ## The rest and the numbers -/

mutual

/-- **A type is determined by its rest and its numbers.**  Further numbers may follow those of the
type, as they do where it is a part of another item. -/
theorem TypeExpr.eq_of_unnumbered_eq {x y : List Nat} : ∀ {t u : TypeExpr},
    t.unnumbered = u.unnumbered → t.ids ++ x = u.ids ++ y → t = u ∧ x = y
  | .basic name, u, h, hids => by
    cases u with
    | basic name' => exact ⟨h, hids⟩
    | _ => cases h
  | .typeParam name, u, h, hids => by
    cases u with
    | typeParam name' => exact ⟨h, hids⟩
    | _ => cases h
  | .named id, u, h, hids => by
    cases u with
    | named id' =>
      obtain ⟨rfl, hrest⟩ := List.cons.inj hids
      exact ⟨rfl, hrest⟩
    | _ => cases h
  | .pointer elem, u, h, hids => by
    cases u with
    | pointer elem' =>
      obtain ⟨rfl, hrest⟩ := elem.eq_of_unnumbered_eq (TypeExpr.pointer.inj h) hids
      exact ⟨rfl, hrest⟩
    | _ => cases h
  | .slice elem, u, h, hids => by
    cases u with
    | slice elem' =>
      obtain ⟨rfl, hrest⟩ := elem.eq_of_unnumbered_eq (TypeExpr.slice.inj h) hids
      exact ⟨rfl, hrest⟩
    | _ => cases h
  | .array len elem, u, h, hids => by
    cases u with
    | array len' elem' =>
      obtain ⟨rfl, helem⟩ := TypeExpr.array.inj h
      obtain ⟨rfl, hrest⟩ := elem.eq_of_unnumbered_eq helem hids
      exact ⟨rfl, hrest⟩
    | _ => cases h
  | .map key value, u, h, hids => by
    cases u with
    | map key' value' =>
      obtain ⟨hkey, hvalue⟩ := TypeExpr.map.inj h
      rw [TypeExpr.ids, TypeExpr.ids, List.append_assoc, List.append_assoc] at hids
      obtain ⟨rfl, hids'⟩ := key.eq_of_unnumbered_eq hkey hids
      obtain ⟨rfl, hrest⟩ := value.eq_of_unnumbered_eq hvalue hids'
      exact ⟨rfl, hrest⟩
    | _ => cases h
  | .chan dir elem, u, h, hids => by
    cases u with
    | chan dir' elem' =>
      obtain ⟨rfl, helem⟩ := TypeExpr.chan.inj h
      obtain ⟨rfl, hrest⟩ := elem.eq_of_unnumbered_eq helem hids
      exact ⟨rfl, hrest⟩
    | _ => cases h
  | .func signature, u, h, hids => by
    cases u with
    | func signature' =>
      obtain ⟨rfl, hrest⟩ := signature.eq_of_unnumbered_eq (TypeExpr.func.inj h) hids
      exact ⟨rfl, hrest⟩
    | _ => cases h
  | .struct fields, u, h, hids => by
    cases u with
    | struct fields' =>
      obtain ⟨rfl, hrest⟩ := Binding.eq_of_listUnnumbered_eq (TypeExpr.struct.inj h) hids
      exact ⟨rfl, hrest⟩
    | _ => cases h
  | .interface methods, u, h, hids => by
    cases u with
    | interface methods' =>
      obtain ⟨rfl, hrest⟩ := Method.eq_of_listUnnumbered_eq (TypeExpr.interface.inj h) hids
      exact ⟨rfl, hrest⟩
    | _ => cases h

theorem Signature.eq_of_unnumbered_eq {x y : List Nat} : ∀ {s s' : Signature},
    s.unnumbered = s'.unnumbered → s.ids ++ x = s'.ids ++ y → s = s' ∧ x = y
  | ⟨_, _, _, _⟩, ⟨_, _, _, _⟩, h, hids => by
    obtain ⟨htypeParams, hparams, hresults, rfl⟩ := Signature.mk.inj h
    simp only [Signature.ids, List.append_assoc] at hids
    obtain ⟨rfl, hbindings⟩ := TypeParam.eq_of_listUnnumbered_eq htypeParams hids
    obtain ⟨rfl, hresultIds⟩ := Binding.eq_of_listUnnumbered_eq hparams hbindings
    obtain ⟨rfl, hrest⟩ := Binding.eq_of_listUnnumbered_eq hresults hresultIds
    exact ⟨rfl, hrest⟩

theorem Binding.eq_of_listUnnumbered_eq {x y : List Nat} : ∀ {bs bs' : List Binding},
    Binding.listUnnumbered bs = Binding.listUnnumbered bs' →
    Binding.listIds bs ++ x = Binding.listIds bs' ++ y → bs = bs' ∧ x = y
  | [], [], _, hids => ⟨rfl, hids⟩
  | [], ⟨_, _⟩ :: _, h, _ => nomatch h
  | ⟨_, _⟩ :: _, [], h, _ => nomatch h
  | ⟨_, type⟩ :: _, ⟨_, _⟩ :: _, h, hids => by
    obtain ⟨hb, hbs⟩ := List.cons.inj h
    obtain ⟨rfl, htype⟩ := Binding.mk.inj hb
    rw [Binding.listIds, Binding.listIds, List.append_assoc, List.append_assoc] at hids
    obtain ⟨rfl, hids'⟩ := type.eq_of_unnumbered_eq htype hids
    obtain ⟨rfl, hrest⟩ := Binding.eq_of_listUnnumbered_eq hbs hids'
    exact ⟨rfl, hrest⟩

theorem TypeParam.eq_of_listUnnumbered_eq {x y : List Nat} : ∀ {ps ps' : List TypeParam},
    TypeParam.listUnnumbered ps = TypeParam.listUnnumbered ps' →
    TypeParam.listIds ps ++ x = TypeParam.listIds ps' ++ y → ps = ps' ∧ x = y
  | [], [], _, hids => ⟨rfl, hids⟩
  | [], ⟨_, _⟩ :: _, h, _ => nomatch h
  | ⟨_, _⟩ :: _, [], h, _ => nomatch h
  | ⟨_, constraint⟩ :: _, ⟨_, _⟩ :: _, h, hids => by
    obtain ⟨hp, hps⟩ := List.cons.inj h
    obtain ⟨rfl, hconstraint⟩ := TypeParam.mk.inj hp
    rw [TypeParam.listIds, TypeParam.listIds, List.append_assoc, List.append_assoc] at hids
    obtain ⟨rfl, hids'⟩ := constraint.eq_of_unnumbered_eq hconstraint hids
    obtain ⟨rfl, hrest⟩ := TypeParam.eq_of_listUnnumbered_eq hps hids'
    exact ⟨rfl, hrest⟩

theorem Method.eq_of_listUnnumbered_eq {x y : List Nat} : ∀ {ms ms' : List Method},
    Method.listUnnumbered ms = Method.listUnnumbered ms' →
    Method.listIds ms ++ x = Method.listIds ms' ++ y → ms = ms' ∧ x = y
  | [], [], _, hids => ⟨rfl, hids⟩
  | [], ⟨_, _⟩ :: _, h, _ => nomatch h
  | ⟨_, _⟩ :: _, [], h, _ => nomatch h
  | ⟨_, signature⟩ :: _, ⟨_, _⟩ :: _, h, hids => by
    obtain ⟨hm, hms⟩ := List.cons.inj h
    obtain ⟨rfl, hsignature⟩ := Method.mk.inj hm
    rw [Method.listIds, Method.listIds, List.append_assoc, List.append_assoc] at hids
    obtain ⟨rfl, hids'⟩ := signature.eq_of_unnumbered_eq hsignature hids
    obtain ⟨rfl, hrest⟩ := Method.eq_of_listUnnumbered_eq hms hids'
    exact ⟨rfl, hrest⟩

end

/-- Type arguments are determined one after the other. -/
theorem TypeExpr.eq_of_map_unnumbered_eq {x y : List Nat} {ts us : List TypeExpr}
    (h : ts.map TypeExpr.unnumbered = us.map TypeExpr.unnumbered)
    (hids : ts.flatMap TypeExpr.ids ++ x = us.flatMap TypeExpr.ids ++ y) : ts = us ∧ x = y := by
  induction ts generalizing us with
  | nil =>
    obtain rfl := List.map_eq_nil_iff.1 h.symm
    exact ⟨rfl, hids⟩
  | cons t ts ih =>
    cases us with
    | nil => cases h
    | cons u us =>
      obtain ⟨ht, hts⟩ := List.cons.inj h
      rw [List.flatMap_cons, List.flatMap_cons, List.append_assoc, List.append_assoc] at hids
      obtain ⟨rfl, hids'⟩ := t.eq_of_unnumbered_eq ht hids
      obtain ⟨rfl, hrest⟩ := ih hts hids'
      exact ⟨rfl, hrest⟩

/-- **An entry is determined by its rest and its numbers.** -/
theorem TypeDef.eq_of_unnumbered_eq {d e : TypeDef} (h : d.unnumbered = e.unnumbered)
    (hids : d.ids = e.ids) : d = e := by
  obtain ⟨module, name, args, kind⟩ := d
  obtain ⟨module', name', args', kind'⟩ := e
  obtain ⟨rfl, rfl, hargs, hkind⟩ := TypeDef.mk.inj h
  obtain ⟨rfl, hbody⟩ := TypeExpr.eq_of_map_unnumbered_eq hargs hids
  have hbody' : kind.body.ids ++ [] = kind'.body.ids ++ [] := by
    rw [List.append_nil, List.append_nil]
    exact hbody
  cases kind with
  | defined underlying =>
    cases kind' with
    | defined underlying' =>
      obtain ⟨rfl, -⟩ := underlying.eq_of_unnumbered_eq (Kind.defined.inj hkind) hbody'
      rfl
    | «alias» target' => cases hkind
  | «alias» target =>
    cases kind' with
    | defined underlying' => cases hkind
    | «alias» target' =>
      obtain ⟨rfl, -⟩ := target.eq_of_unnumbered_eq (Kind.alias.inj hkind) hbody'
      rfl

/-- **A symbol is determined by its rest and its numbers.** -/
theorem Symbol.eq_of_unnumbered_eq {s s' : Symbol} (h : s.unnumbered = s'.unnumbered)
    (hids : s.ids = s'.ids) : s = s' := by
  obtain ⟨name, module, kind⟩ := s
  obtain ⟨name', module', kind'⟩ := s'
  obtain ⟨rfl, rfl, hkind⟩ := Symbol.mk.inj h
  have hids' : kind.ids ++ [] = kind'.ids ++ [] := by
    rw [List.append_nil, List.append_nil]
    exact hids
  cases kind with
  | function signature =>
    cases kind' with
    | function signature' =>
      obtain ⟨rfl, -⟩ := signature.eq_of_unnumbered_eq (Kind.function.inj hkind) hids'
      rfl
    | _ => cases hkind
  | method receiver signature =>
    cases kind' with
    | method receiver' signature' =>
      obtain ⟨rname, rtype⟩ := receiver
      obtain ⟨rname', rtype'⟩ := receiver'
      obtain ⟨hreceiver, hsignature⟩ := Kind.method.inj hkind
      obtain ⟨rfl, hrtype⟩ := Binding.mk.inj hreceiver
      rw [Kind.ids, Kind.ids, List.append_assoc, List.append_assoc] at hids'
      obtain ⟨rfl, hsignatureIds⟩ := rtype.eq_of_unnumbered_eq hrtype hids'
      obtain ⟨rfl, -⟩ := signature.eq_of_unnumbered_eq hsignature hsignatureIds
      rfl
    | _ => cases hkind
  | «variable» =>
    cases kind' with
    | «variable» => rfl
    | _ => cases hkind
  | constant =>
    cases kind' with
    | constant => rfl
    | _ => cases hkind
  | typeName =>
    cases kind' with
    | typeName => rfl
    | _ => cases hkind

end CallPolicy
