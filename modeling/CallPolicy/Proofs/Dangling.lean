import CallPolicy.Proofs.Occurrence
import CallPolicy.Proofs.Validation
import CallPolicy.Proofs.Writer

/-!
# What validation is good for

Validation looks at numbers that one traversal collects, and names are written by another one.  A
number that the first misses and the second comes to would be written as an invalid type, in a
signature that no entry of a denylist matches.  Here both are compared with a third notion: a number
is mentioned where a type with a hole, filled with the number, gives the type.

What is mentioned is collected, so validation is exact.  And what an entry shows is collected from
it, so in a table that passes the writer is only ever left with numbers that the table has, however
the entries refer to one another.

## Main statements

* `Model.findDangling?_eq_some_iff` — the number that is reported is the first one that dangles.
* `Writer.neverMissing_of_inTable` — in a table that passes no missing number is written.
* `Model.validate_exact` — all of it together.
-/

namespace CallPolicy

/-! ## Mentioned numbers -/

/-- The number stands somewhere in the type. -/
def TypeExpr.Mentions (t : TypeExpr) (id : Nat) : Prop :=
  ∃ frames, TypeFrame.fillAll frames (.named id) = t

/-- The number stands in an argument of the entry, or in what the entry is declared as. -/
def TypeDef.Mentions (d : TypeDef) (id : Nat) : Prop :=
  (∃ arg ∈ d.args, arg.Mentions id) ∨ d.kind.body.Mentions id

/-- The number stands somewhere in the receiver or the signature of the symbol. -/
def Symbol.Mentions (s : Symbol) (id : Nat) : Prop :=
  ∃ C : SymbolContext, C.fill (.named id) = s

theorem TypeFrame.mem_ids_fillAll {t : TypeExpr} {id : Nat} (h : id ∈ t.ids)
    (frames : List TypeFrame) : id ∈ (fillAll frames t).ids := by
  induction frames with
  | nil => exact h
  | cons frame frames ih =>
    show id ∈ (frame.fill (fillAll frames t)).ids
    rw [frame.ids_fill]
    exact List.mem_append_right _ (List.mem_append_left _ ih)

theorem TypeExpr.mentions_iff (t : TypeExpr) (id : Nat) : t.Mentions id ↔ id ∈ t.ids := by
  constructor
  · rintro ⟨frames, rfl⟩
    exact TypeFrame.mem_ids_fillAll (List.mem_singleton_self id) frames
  · intro h
    obtain ⟨before, after, hids⟩ := List.append_of_mem h
    obtain ⟨frames, hfill, -⟩ := t.hasPlace hids
    exact ⟨frames, hfill⟩

theorem TypeDef.mentions_iff (d : TypeDef) (id : Nat) : d.Mentions id ↔ id ∈ d.ids := by
  simp only [Mentions, ids, TypeExpr.mentions_iff, List.mem_append, List.mem_flatMap]

theorem SymbolFrame.mem_ids_fill (frame : SymbolFrame) {t : TypeExpr} {id : Nat} (h : id ∈ t.ids) :
    id ∈ (frame.fill t).ids := by
  cases frame with
  | function signature | method _ signature =>
    have hsignature : id ∈ (signature.fill t).ids := by
      rw [signature.ids_fill]
      exact List.mem_append_right _ (List.mem_append_left _ h)
    simp [fill, Symbol.Kind.ids, hsignature]
  | receiver name signature => exact List.mem_append_left _ h

theorem Symbol.mentions_iff (s : Symbol) (id : Nat) : s.Mentions id ↔ id ∈ s.ids := by
  constructor
  · rintro ⟨C, rfl⟩
    exact C.outer.mem_ids_fill
      (TypeFrame.mem_ids_fillAll (List.mem_singleton_self id) C.inner)
  · intro h
    have hcallable : s.isCallable = true := by
      obtain ⟨name, module, kind⟩ := s
      cases kind with
      | function _ | method _ _ => rfl
      | _ => exact absurd h List.not_mem_nil
    obtain ⟨before, after, hids⟩ := List.append_of_mem h
    obtain ⟨C, hfill, -⟩ := SymbolContext.exists_fill_eq hcallable hids
    exact ⟨C, hfill⟩

namespace Model

/-! ## The first number that dangles -/

/-- The number is the first of the list that is not below the bound. -/
def IsFirstOutside (bound : Nat) (ids : List Nat) (id : Nat) : Prop :=
  ∃ before after, ids = before ++ id :: after ∧ (∀ i ∈ before, i < bound) ∧ bound ≤ id

/-- The symbols of all uses are in range. -/
def UsesInRange (m : Model) : Prop :=
  ∀ p ∈ m.packages, ∀ use ∈ p.uses, use.symbol < m.symbols.length

/-- What the entries of the table mention is in range. -/
def TypesInRange (m : Model) : Prop :=
  ∀ d ∈ m.types, ∀ id, d.Mentions id → id < m.types.length

/-- What the symbols mention is in range. -/
def SymbolsInRange (m : Model) : Prop :=
  ∀ s ∈ m.symbols, ∀ id, s.Mentions id → id < m.types.length

/-- The first number of a model that dangles.  The uses of the packages come first, then the entries
of the table, then the symbols; in an entry or a symbol the numbers come as they are written. -/
inductive FirstDangling (m : Model) : Dangling → Prop
  | symbol {before after p earlier later use}
      (hpackages : m.packages = before ++ p :: after)
      (hbefore : ∀ q ∈ before, ∀ use ∈ q.uses, use.symbol < m.symbols.length)
      (huses : p.uses = earlier ++ use :: later)
      (hearlier : ∀ use ∈ earlier, use.symbol < m.symbols.length)
      (huse : m.symbols.length ≤ use.symbol) :
      FirstDangling m (.symbol use.symbol use.position)
  | typeInDef {before after d id} (huses : m.UsesInRange)
      (htypes : m.types = before ++ d :: after)
      (hbefore : ∀ d ∈ before, ∀ id, d.Mentions id → id < m.types.length)
      (hid : IsFirstOutside m.types.length d.ids id) :
      FirstDangling m (.typeInDef id before.length d.name)
  | typeInSymbol {before after s id} (huses : m.UsesInRange) (htypes : m.TypesInRange)
      (hsymbols : m.symbols = before ++ s :: after)
      (hbefore : ∀ s ∈ before, ∀ id, s.Mentions id → id < m.types.length)
      (hid : IsFirstOutside m.types.length s.ids id) :
      FirstDangling m (.typeInSymbol id s.name)

theorem firstOutside?_eq_some_iff {bound : Nat} {ids : List Nat} {id : Nat} :
    firstOutside? bound ids = some id ↔ IsFirstOutside bound ids id := by
  rw [firstOutside?, List.find?_eq_some_iff_append, IsFirstOutside]
  simp only [Bool.not_eq_true', decide_eq_false_iff_not, Nat.not_lt, Bool.not_not,
    decide_eq_true_eq]
  constructor
  · rintro ⟨hid, before, after, hids, hbefore⟩
    exact ⟨before, after, hids, hbefore, hid⟩
  · rintro ⟨before, after, hids, hbefore, hid⟩
    exact ⟨hid, before, after, hids, hbefore⟩

theorem danglingUse?_eq_some_iff {bound : Nat} {p : Package} {what : Dangling} :
    danglingUse? bound p = some what ↔
      ∃ earlier use later, p.uses = earlier ++ use :: later ∧
        (∀ use ∈ earlier, use.symbol < bound) ∧ bound ≤ use.symbol ∧
        what = .symbol use.symbol use.position := by
  rw [danglingUse?, List.findSome?_eq_some_iff]
  refine exists_congr fun earlier => exists_congr fun use => exists_congr fun later => ?_
  refine and_congr_right fun _ => ?_
  by_cases huse : use.symbol < bound
  · simp [huse, Nat.not_le.2 huse]
  · simp [huse, Nat.not_lt.1 huse, eq_comm, and_comm]

/-- The first hit in a numbered list is that at the position which its number gives. -/
theorem findSome?_zipIdx_eq_some_iff {α β : Type} {f : α × Nat → Option β} {xs : List α} {b : β} :
    xs.zipIdx.findSome? f = some b ↔
      ∃ before x after, xs = before ++ x :: after ∧ f (x, before.length) = some b ∧
        ∀ entry ∈ before.zipIdx, f entry = none := by
  rw [List.findSome?_eq_some_iff]
  constructor
  · rintro ⟨hits, entry, more, hsplit, hentry, hnone⟩
    obtain ⟨before, rest, rfl, rfl, hrest⟩ := List.zipIdx_eq_append_iff.1 hsplit
    obtain ⟨x, after, rfl, rfl, -⟩ := List.zipIdx_eq_cons_iff.1 hrest.symm
    rw [Nat.zero_add] at hentry
    exact ⟨before, x, after, rfl, hentry, hnone⟩
  · rintro ⟨before, x, after, rfl, hx, hnone⟩
    refine ⟨before.zipIdx, (x, before.length), after.zipIdx (before.length + 1), ?_, hx, hnone⟩
    rw [List.zipIdx_append, List.zipIdx_cons, Nat.zero_add]

variable {m : Model}

theorem findSome?_danglingUse?_eq_none_iff :
    m.packages.findSome? (danglingUse? m.symbols.length) = none ↔ m.UsesInRange := by
  simp only [List.findSome?_eq_none_iff, danglingUse?_eq_none_iff, UsesInRange]

theorem findSome?_danglingDef?_eq_none_iff {bound : Nat} {types : TypeTable} :
    types.zipIdx.findSome? (danglingDef? bound) = none ↔
      ∀ d ∈ types, ∀ id, d.Mentions id → id < bound := by
  simp only [List.findSome?_eq_none_iff, danglingDef?_eq_none_iff, TypeDef.mentions_iff]
  exact forall_mem_zipIdx_iff (P := fun d => ∀ id ∈ d.ids, id < bound) types

/-- **The number that is reported is the first one that dangles.** -/
theorem findDangling?_eq_some_iff {what : Dangling} :
    m.findDangling? = some what ↔ m.FirstDangling what := by
  unfold findDangling?
  rw [Option.or_eq_some_iff, Option.or_eq_some_iff, findSome?_danglingUse?_eq_none_iff,
    findSome?_danglingDef?_eq_none_iff]
  constructor
  · rintro (h | ⟨huses, h | ⟨htypes, h⟩⟩)
    · obtain ⟨before, p, after, hpackages, hp, hbefore⟩ := List.findSome?_eq_some_iff.1 h
      obtain ⟨earlier, use, later, hsplit, hearlier, huse, rfl⟩ := danglingUse?_eq_some_iff.1 hp
      refine .symbol hpackages ?_ hsplit hearlier huse
      exact fun q hq => (danglingUse?_eq_none_iff _ q).1 (hbefore q hq)
    · obtain ⟨before, d, after, hsplit, hd, hbefore⟩ := findSome?_zipIdx_eq_some_iff.1 h
      obtain ⟨id, hid, rfl⟩ := Option.map_eq_some_iff.1 hd
      refine .typeInDef huses hsplit ?_ (firstOutside?_eq_some_iff.1 hid)
      exact findSome?_danglingDef?_eq_none_iff.1 (List.findSome?_eq_none_iff.2 hbefore)
    · obtain ⟨before, s, after, hsplit, hs, hbefore⟩ := List.findSome?_eq_some_iff.1 h
      obtain ⟨id, hid, rfl⟩ := Option.map_eq_some_iff.1 hs
      refine .typeInSymbol huses htypes hsplit ?_ (firstOutside?_eq_some_iff.1 hid)
      intro s hs id hmentions
      exact (danglingSymbol?_eq_none_iff _ s).1 (hbefore s hs) id ((s.mentions_iff id).1 hmentions)
  · rintro (⟨hpackages, hbefore, hsplit, hearlier, huse⟩ | ⟨huses, hsplit, hbefore, hid⟩ |
      ⟨huses, htypes, hsplit, hbefore, hid⟩)
    · refine .inl (List.findSome?_eq_some_iff.2 ⟨_, _, _, hpackages, ?_, ?_⟩)
      · exact danglingUse?_eq_some_iff.2 ⟨_, _, _, hsplit, hearlier, huse, rfl⟩
      · exact fun q hq => (danglingUse?_eq_none_iff _ q).2 (hbefore q hq)
    · refine .inr ⟨huses, .inl (findSome?_zipIdx_eq_some_iff.2 ⟨_, _, _, hsplit, ?_, ?_⟩)⟩
      · exact Option.map_eq_some_iff.2 ⟨_, firstOutside?_eq_some_iff.2 hid, rfl⟩
      · exact List.findSome?_eq_none_iff.1 (findSome?_danglingDef?_eq_none_iff.2 hbefore)
    · refine .inr ⟨huses, .inr ⟨htypes, List.findSome?_eq_some_iff.2 ⟨_, _, _, hsplit, ?_, ?_⟩⟩⟩
      · exact Option.map_eq_some_iff.2 ⟨_, firstOutside?_eq_some_iff.2 hid, rfl⟩
      · refine fun s hs => (danglingSymbol?_eq_none_iff _ s).2 fun id hid => ?_
        exact hbefore s hs id ((s.mentions_iff id).2 hid)

theorem inRange_iff : m.InRange ↔ m.UsesInRange ∧ m.TypesInRange ∧ m.SymbolsInRange := by
  simp only [TypesInRange, SymbolsInRange, TypeDef.mentions_iff, Symbol.mentions_iff]
  exact ⟨fun ⟨hu, ht, hs⟩ => ⟨hu, ht, hs⟩, fun ⟨hu, ht, hs⟩ => ⟨hu, ht, hs⟩⟩

end Model

/-! ## Writing what was validated -/

namespace Writer

variable {n : Naming} {w w' : Writer} {jobs : List Job}

/-- From these jobs the writer never comes to a number that the table does not have. -/
def NeverMissing (n : Naming) (jobs : List Job) : Prop :=
  ∀ w id rest, Runs n (start jobs) w → w.todo = .named id :: rest → ∃ d, n.types[id]? = some d

/-- The numbers that are still to be written are in the table. -/
def InTable (n : Naming) (w : Writer) : Prop :=
  ∀ id ∈ w.todo.flatMap Job.ids, id < n.types.length

/-- A step keeps what is to be written in the table, if the entries only refer to the table. -/
theorem InTable.step (htypes : ∀ d ∈ n.types, ∀ id ∈ d.ids, id < n.types.length)
    (h : w.InTable n) (hstep : w.step n = some w') : w'.InTable n := by
  unfold InTable at h ⊢
  cases step_cases hstep with
  | work _ hids _ =>
    rw [List.flatMap_cons] at h
    rwa [List.flatMap_append, hids]
  | missing _ | met _ _ =>
    rw [List.flatMap_cons] at h
    exact (List.forall_mem_append.1 h).2
  | enter hid _ =>
    rw [List.flatMap_cons] at h
    rw [List.flatMap_cons, Job.ids_ofEntry, List.forall_mem_append]
    refine ⟨?_, (List.forall_mem_append.1 h).2⟩
    exact fun i hi => htypes _ (List.mem_of_getElem? hid) i (TypeDef.shownIds_subset _ hi)
  | leave => exact h

/-- **In a table that refers only to itself no missing number is written.** -/
theorem neverMissing_of_inTable (htypes : ∀ d ∈ n.types, ∀ id ∈ d.ids, id < n.types.length)
    (h : (start jobs).InTable n) : NeverMissing n jobs := by
  intro w id rest hrun htodo
  have hin : w.InTable n := hrun.keeps (InTable.step htypes) h
  rw [InTable, htodo] at hin
  exact ⟨_, List.getElem?_eq_getElem (hin id List.mem_cons_self)⟩

/-- A symbol with a signature has jobs that write it. -/
theorem exists_jobs_of_canonical? {s : Symbol} {text : String} (h : n.canonical? s = some text) :
    ∃ jobs, Job.ofSymbol? n s = some jobs ∧ Runs n (start jobs) (done text) := by
  have hrel := rel_ofSymbol? n s
  rw [h] at hrel
  generalize Job.ofSymbol? n s = jobs? at hrel
  obtain ⟨hrun⟩ := hrel
  exact ⟨_, rfl, hrun⟩

/-- The jobs of a symbol write the numbers in it. -/
theorem flatMap_ids_of_ofSymbol? {s : Symbol} (h : Job.ofSymbol? n s = some jobs) :
    jobs.flatMap Job.ids = s.ids := by
  obtain ⟨name, module, kind⟩ := s
  cases kind with
  | function signature | method receiver signature =>
    obtain rfl := Option.some_inj.1 h
    simp [Job.ids, Symbol.ids, Symbol.Kind.ids]
  | _ => cases h

end Writer

namespace Model

open Writer

/-- **Validation is exact, and it is enough.**  A model passes exactly if the symbols of its uses
and all numbers in its entries and symbols are in range, and otherwise the first number that dangles
is reported.  In a model that passes, no missing number is met when a symbol of it is written, or
any type with numbers in range; and the signature of each use is looked up with success. -/
theorem validate_exact (m : Model) :
    (m.validate = .ok m ↔ m.UsesInRange ∧ m.TypesInRange ∧ m.SymbolsInRange) ∧
    (∀ e, m.validate = .error e ↔ ∃ what, m.FirstDangling what ∧ e = .inconsistent what) ∧
    (m.validate = .ok m → ∀ origins : OriginMap,
      (∀ s ∈ m.symbols, ∀ text, Naming.canonical? ⟨m.types, origins⟩ s = some text →
        ∃ jobs, Job.ofSymbol? ⟨m.types, origins⟩ s = some jobs ∧
          Runs ⟨m.types, origins⟩ (start jobs) (done text) ∧
          NeverMissing ⟨m.types, origins⟩ jobs) ∧
      (∀ t : TypeExpr, (∀ id, t.Mentions id → id < m.types.length) →
        Runs ⟨m.types, origins⟩ (start [.type t]) (done (Naming.typeText ⟨m.types, origins⟩ t)) ∧
          NeverMissing ⟨m.types, origins⟩ [.type t]) ∧
      ∀ p ∈ m.packages, ∀ use ∈ p.uses, ∃ s, m.symbols[use.symbol]? = some s ∧
        ((m.signatures origins)[use.symbol]?).map Thunk.get =
          some (Naming.canonical? ⟨m.types, origins⟩ s)) := by
  refine ⟨?_, ?_, ?_⟩
  · rw [validate_eq_ok_iff, inRange_iff]
  · intro e
    simp only [validate_eq_error_iff, findDangling?_eq_some_iff]
  · intro hvalid origins
    have hrange := m.validate_eq_ok_iff.1 hvalid
    refine ⟨?_, ?_, ?_⟩
    · intro s hs text htext
      obtain ⟨jobs, hjobs, hrun⟩ := exists_jobs_of_canonical? htext
      refine ⟨jobs, hjobs, hrun, neverMissing_of_inTable hrange.types ?_⟩
      intro id hid
      exact hrange.symbols s hs id (flatMap_ids_of_ofSymbol? hjobs ▸ hid)
    · intro t ht
      simp only [TypeExpr.mentions_iff] at ht
      refine ⟨runs_type _ t, neverMissing_of_inTable hrange.types ?_⟩
      intro id hid
      exact ht id (List.append_nil t.ids ▸ hid)
    · intro p hp use huse
      have hlt := hrange.uses p hp use huse
      refine ⟨_, List.getElem?_eq_getElem hlt, ?_⟩
      simp [signatures, List.getElem?_eq_getElem hlt, Thunk.get]

/-- A method whose receiver and parameter lead into a ring of two entries, and one use of it. -/
def selfInstance : Model where
  packages := [{ path := "p", uses := [⟨⟨⟨"x.go"⟩, 1, 1⟩, 0⟩] }]
  symbols := [⟨"F", ⟨"m"⟩, .method ⟨none, .pointer (.named 0)⟩ { params := [⟨none, .named 1⟩] }⟩]
  types :=
    [⟨⟨"m"⟩, "A", [.named 1], .alias (.slice (.named 1))⟩,
      ⟨⟨"m"⟩, "G", [.named 0], .defined (.map (.named 0) (.named 1))⟩]

/-- The same with two missing numbers in the second entry, after a number that is there. -/
def danglingInstance : Model :=
  { selfInstance with
    types :=
      [⟨⟨"m"⟩, "A", [.named 1], .alias (.slice (.named 1))⟩,
        ⟨⟨"m"⟩, "G", [.named 0], .defined (.map (.named 9) (.named 8))⟩] }

theorem validate_exact_instances :
    selfInstance.validate = .ok selfInstance ∧ selfInstance.TypesInRange ∧
    (∃ s ∈ selfInstance.symbols, ∃ jobs,
      Job.ofSymbol? ⟨selfInstance.types, .empty⟩ s = some jobs ∧
      Runs ⟨selfInstance.types, .empty⟩ (start jobs)
        (done "func (*[]m.G[<cycle: m.A>]).F(m.G[[]<cycle: m.G>])") ∧
      NeverMissing ⟨selfInstance.types, .empty⟩ jobs) ∧
    NeverMissing ⟨selfInstance.types, .empty⟩ [.type (.named 1)] ∧
    danglingInstance.validate = .error (.inconsistent (.typeInDef 9 1 "G")) ∧
    danglingInstance.FirstDangling (.typeInDef 9 1 "G") := by
  obtain ⟨hok, -, henough⟩ := validate_exact selfInstance
  obtain ⟨-, herror, -⟩ := validate_exact danglingInstance
  have hvalid : selfInstance.validate = .ok selfInstance := rfl
  have hinvalid : danglingInstance.validate = .error (.inconsistent (.typeInDef 9 1 "G")) := rfl
  obtain ⟨hsymbols, htypes, -⟩ := henough hvalid .empty
  have htext := hsymbols _ List.mem_cons_self _ rfl
  obtain ⟨what, hfirst, hwhat⟩ := (herror _).1 hinvalid
  obtain rfl := ResolveError.inconsistent.inj hwhat
  refine ⟨hvalid, (hok.1 hvalid).2.1, ⟨_, List.mem_cons_self, htext⟩, ?_, hinvalid, hfirst⟩
  refine (htypes (.named 1) ?_).2
  intro id hid
  obtain rfl := List.mem_singleton.1 ((TypeExpr.mentions_iff _ id).1 hid)
  decide

end Model

end CallPolicy
