import CallPolicy.Proofs.Dangling
import CallPolicy.Proofs.Unnumbered

/-!
# Three traversals of an item

The numbers in an item are shifted by one traversal, collected by another one, and looked up by the
writer, which is a third.  Each of them is a recursion of its own over the same constructors, and
they have to come to the same places.  What is not shifted would be written as the type of another
file; what is not collected would be looked up without having been validated.

A run of the writer enters the entries that it looks up, and looks up what it finds there.  The
look-ups of the item itself are those that it makes outside of all expansions, that is, with no mark
on the stack.  What is left of them at any moment stands below the last mark.  So the look-ups of a
run and what is left of them are the numbers of the jobs at its start, in order.

## Main statements

* `Writer.outerIds_step` — a step looks up the first number that is left, or none.
* `Writer.Looks.append_outerIds` — what a run has looked up, and what is left.
* `Traversals.Agree` — what it means that the traversals come to the same places.
* `traversals_agree` — they do, for types, signatures, entries and symbols.
-/

namespace CallPolicy

namespace Writer

variable {n : Naming} {w w' : Writer}

/-! ## Look-ups outside of all expansions -/

/-- The number that is looked up next, if that happens outside of all expansions. -/
def lookup? (w : Writer) : Option Nat :=
  match w.todo with
  | .named id :: rest => if marks rest = [] then some id else none
  | _ => none

/-- The second state is reached from the first one, and the numbers are those that were looked up on
the way, outside of all expansions. -/
inductive Looks (n : Naming) (w : Writer) : List Nat → Writer → Prop
  | refl : Looks n w [] w
  | tail {ids w' later} (h : Looks n w ids w') (hstep : w'.step n = some later) :
      Looks n w (ids ++ w'.lookup?.toList) later

/-- A run has looked up some numbers. -/
theorem Runs.exists_looks (h : Runs n w w') : ∃ ids, Looks n w ids w' := by
  induction h with
  | refl => exact ⟨[], .refl⟩
  | tail _ hstep ih =>
    obtain ⟨ids, hlooks⟩ := ih
    exact ⟨_, hlooks.tail hstep⟩

/-! ## What is left to be looked up -/

/-- The numbers of the jobs below the last mark. -/
def outerIds : List Job → List Nat
  | [] => []
  | job :: rest => (if marks rest = [] then job.ids else []) ++ outerIds rest

/-- Jobs without a mark add their numbers if no mark follows. -/
theorem outerIds_append {jobs : List Job} (h : ∀ job ∈ jobs, job.isMark = false) (rest : List Job) :
    outerIds (jobs ++ rest) =
      (if marks rest = [] then jobs.flatMap Job.ids else []) ++ outerIds rest := by
  induction jobs with
  | nil => simp
  | cons job jobs ih =>
    rw [List.forall_mem_cons] at h
    rw [List.cons_append, outerIds, ih h.2, marks_append h.2]
    split <;> simp

/-- **A step looks up the first number that is left, or none.** -/
theorem outerIds_step (h : w.step n = some w') :
    outerIds w.todo = w.lookup?.toList ++ outerIds w'.todo := by
  obtain ⟨todo, active, out⟩ := w
  cases todo with
  | nil => cases h
  | cons job rest =>
    obtain rfl : perform n rest active out job = w' := Option.some_inj.1 h
    by_cases hjob : job.isCompound = true
    · have hnone : lookup? ⟨job :: rest, active, out⟩ = none := by
        cases job with
        | text _ | named _ | leave _ => cases hjob
        | _ => rfl
      rw [perform_of_isCompound n rest active out hjob, hnone,
        outerIds_append (Job.isMark_of_mem_parts n job), Job.flatMap_ids_parts n hjob]
      rfl
    · cases job with
      | text s => simp [perform, lookup?, outerIds, Job.ids]
      | leave id => simp [perform, lookup?, outerIds, Job.ids]
      | named id =>
        -- what is written for the number stands above a mark, or is a text
        have hnext : outerIds (perform n rest active out (.named id)).todo = outerIds rest := by
          rw [perform]
          cases hid : n.types[id]? with
          | none => simp [outerIds, Job.ids]
          | some d => by_cases hactive : id ∈ active <;> simp [hactive, outerIds, Job.ids]
        rw [hnext]
        by_cases hrest : marks rest = [] <;> simp [outerIds, lookup?, hrest, Job.ids]
      | _ => exact absurd rfl hjob

/-- **The look-ups of a run and what is left of them are the numbers of the jobs at its start.** -/
theorem Looks.append_outerIds {ids : List Nat} (h : Looks n w ids w') :
    ids ++ outerIds w'.todo = outerIds w.todo := by
  induction h with
  | refl => rfl
  | tail _ hstep ih => rw [List.append_assoc, ← outerIds_step hstep, ih]

end Writer

/-! ## The traversals of an item -/

open Writer

/-- The traversals of items of one kind. -/
structure Traversals (α : Type) where
  /-- Collects the numbers. -/
  ids : α → List Nat
  /-- Adds an offset to each number. -/
  shift : Nat → α → α
  /-- Puts zero in place of each number. -/
  unnumbered : α → α
  /-- The text, if the item is written at all. -/
  text? : Naming → α → Option String
  /-- The jobs that write it. -/
  jobs? : Naming → α → Option (List Job)
  /-- The numbers that are part of the text. -/
  shownIds : α → List Nat

/-- Shifting, collecting and writing come to the same numbers. -/
structure Traversals.Agree {α : Type} (t : Traversals α) : Prop where
  ids_shift : ∀ k x, t.ids (t.shift k x) = (t.ids x).map (· + k)
  /-- A shift changes nothing but the numbers. -/
  unnumbered_shift : ∀ k x, t.unnumbered (t.shift k x) = t.unnumbered x
  /-- There is nothing else in an item than its numbers and its rest. -/
  determined : ∀ x y, t.unnumbered x = t.unnumbered y → t.ids x = t.ids y → x = y
  shift_zero : ∀ x, t.shift 0 x = x
  shift_shift : ∀ k l x, t.shift l (t.shift k x) = t.shift (k + l) x
  /-- What is part of the text is collected. -/
  shown : ∀ x, (t.shownIds x).Sublist (t.ids x)
  /-- At any moment of a run, from any state, only collected numbers have been looked up outside of
  other entries: the first ones of those that are part of the text, and all of them in the end. -/
  looked : ∀ n x jobs active out seen w, t.jobs? n x = some jobs →
    Looks n ⟨jobs, active, out⟩ seen w →
      (∀ id ∈ seen, id ∈ t.ids x) ∧ seen <+: t.shownIds x ∧ (w.todo = [] → seen = t.shownIds x)
  /-- A run from the start comes to its end and writes the text. -/
  written : ∀ n x, Option.Rel
    (fun jobs text => Looks n (start jobs) (t.shownIds x) (done text)) (t.jobs? n x) (t.text? n x)

/-- The traversals of types. -/
def TypeExpr.traversals : Traversals TypeExpr where
  ids := ids
  shift := shift
  unnumbered := unnumbered
  text? n t := some (n.typeText t)
  jobs? _ t := some [.type t]
  shownIds := ids

/-- The traversals of signatures. -/
def Signature.traversals : Traversals Signature where
  ids := ids
  shift := shift
  unnumbered := unnumbered
  text? n s := some (n.signatureText s)
  jobs? _ s := some [.signature s]
  shownIds := ids

/-- The traversals of entries of the table. -/
def TypeDef.traversals : Traversals TypeDef where
  ids := ids
  shift := shift
  unnumbered := unnumbered
  text? n d := some (n.entryText n.typeRef d)
  jobs? _ d := some [.ofEntry d]
  shownIds := shownIds

/-- The traversals of symbols. -/
def Symbol.traversals : Traversals Symbol where
  ids := ids
  shift := shift
  unnumbered := unnumbered
  text? := Naming.canonical?
  jobs? := Job.ofSymbol?
  shownIds := ids

/-! ## Look-ups of jobs -/

section Jobs

variable {n : Naming} {jobs : List Job} {shownIds : List Nat}
  (hmarks : ∀ job ∈ jobs, job.isMark = false) (hids : jobs.flatMap Job.ids = shownIds)
include hmarks hids

/-- Jobs that no mark is among look up their numbers, from any state. -/
theorem Writer.Looks.of_flatMap_ids {ids : List Nat} (hshown : shownIds.Sublist ids)
    {active : List Nat} {out : String} {seen : List Nat} {w : Writer}
    (h : Looks n ⟨jobs, active, out⟩ seen w) :
    (∀ id ∈ seen, id ∈ ids) ∧ seen <+: shownIds ∧ (w.todo = [] → seen = shownIds) := by
  have hstart : outerIds jobs = shownIds := by
    have happend := outerIds_append hmarks []
    rw [List.append_nil] at happend
    rw [happend, ← hids]
    simp [outerIds, marks]
  have hsplit : seen ++ outerIds w.todo = shownIds := h.append_outerIds.trans hstart
  have hfirst : seen <+: shownIds := ⟨_, hsplit⟩
  refine ⟨fun id hid => hshown.subset (hfirst.subset hid), hfirst, ?_⟩
  intro hdone
  rw [← hsplit, hdone, outerIds, List.append_nil]

/-- A run to the end has looked up all of them. -/
theorem Writer.Runs.looks {text : String} (h : Runs n (start jobs) (done text)) :
    Looks n (start jobs) shownIds (done text) := by
  obtain ⟨seen, hlooks⟩ := h.exists_looks
  obtain ⟨-, -, hall⟩ := hlooks.of_flatMap_ids hmarks hids (List.Sublist.refl shownIds)
  rwa [hall rfl] at hlooks

end Jobs

/-- One job looks up its numbers, from any state. -/
theorem Writer.Looks.of_job {n : Naming} {job : Job} (hjob : job.isMark = false) {ids : List Nat}
    (hshown : job.ids.Sublist ids) {active : List Nat} {out : String} {seen : List Nat} {w : Writer}
    (h : Looks n ⟨[job], active, out⟩ seen w) :
    (∀ id ∈ seen, id ∈ ids) ∧ seen <+: job.ids ∧ (w.todo = [] → seen = job.ids) :=
  Looks.of_flatMap_ids (List.forall_mem_singleton.2 hjob) (List.flatMap_singleton Job.ids job)
    hshown h

/-- One job is done with its text, and with all of its numbers looked up. -/
theorem Writer.looks_job (n : Naming) (job : Job) (hjob : job.isMark = false) :
    Looks n (start [job]) job.ids (done (job.written n n.typeRef)) := by
  have hmarks : ∀ j ∈ [job], j.isMark = false := List.forall_mem_singleton.2 hjob
  have hrun := runs_start n [job] hmarks
  rw [Job.writtenAll_cons, Job.writtenAll_nil, String.append_empty] at hrun
  exact hrun.looks hmarks (List.flatMap_singleton Job.ids job)

theorem Job.isMark_of_ofSymbol? {n : Naming} {s : Symbol} {jobs : List Job}
    (h : Job.ofSymbol? n s = some jobs) : ∀ job ∈ jobs, job.isMark = false := by
  obtain ⟨name, module, kind⟩ := s
  cases kind with
  | function signature | method receiver signature =>
    obtain rfl := Option.some_inj.1 h
    simp [Job.isMark]
  | _ => cases h

/-- The numbers that the text of an entry shows are some of its numbers, in their order. -/
theorem TypeDef.shownIds_sublist (d : TypeDef) : d.shownIds.Sublist d.ids := by
  obtain ⟨module, name, args, kind⟩ := d
  cases kind with
  | defined underlying => exact List.sublist_append_left _ _
  | «alias» target => exact List.sublist_append_right _ _

/-! ## Agreement -/

theorem TypeExpr.agree_traversals : TypeExpr.traversals.Agree where
  ids_shift := ids_shift
  unnumbered_shift := unnumbered_shift
  determined _ _ h hids := (eq_of_unnumbered_eq h (congrArg (· ++ []) hids)).1
  shift_zero := shift_zero
  shift_shift := shift_shift
  shown _ := .refl _
  looked n t jobs active out seen w hjobs h := by
    obtain rfl := Option.some_inj.1 hjobs
    exact Looks.of_job rfl (.refl _) h
  written n t := .some (looks_job n (.type t) rfl)

theorem Signature.agree_traversals : Signature.traversals.Agree where
  ids_shift := ids_shift
  unnumbered_shift := unnumbered_shift
  determined _ _ h hids := (eq_of_unnumbered_eq h (congrArg (· ++ []) hids)).1
  shift_zero := shift_zero
  shift_shift := shift_shift
  shown _ := .refl _
  looked n s jobs active out seen w hjobs h := by
    obtain rfl := Option.some_inj.1 hjobs
    exact Looks.of_job rfl (.refl _) h
  written n s := .some (looks_job n (.signature s) rfl)

theorem TypeDef.agree_traversals : TypeDef.traversals.Agree where
  ids_shift := ids_shift
  unnumbered_shift := unnumbered_shift
  determined _ _ := eq_of_unnumbered_eq
  shift_zero := shift_zero
  shift_shift := shift_shift
  shown := shownIds_sublist
  looked n d jobs active out seen w hjobs h := by
    obtain rfl := Option.some_inj.1 hjobs
    have hshown : (Job.ofEntry d).ids.Sublist d.ids := by
      rw [Job.ids_ofEntry]
      exact d.shownIds_sublist
    have hlooked := Looks.of_job (Job.isMark_ofEntry d) hshown h
    rwa [Job.ids_ofEntry] at hlooked
  written n d := by
    have hlooks := looks_job n (.ofEntry d) (Job.isMark_ofEntry d)
    rw [Job.ids_ofEntry, Job.written_ofEntry] at hlooks
    exact .some hlooks

theorem Symbol.agree_traversals : Symbol.traversals.Agree where
  ids_shift := ids_shift
  unnumbered_shift := unnumbered_shift
  determined _ _ := eq_of_unnumbered_eq
  shift_zero := shift_zero
  shift_shift := shift_shift
  shown _ := .refl _
  looked n s jobs active out seen w hjobs h :=
    Looks.of_flatMap_ids (Job.isMark_of_ofSymbol? hjobs) (flatMap_ids_of_ofSymbol? hjobs)
      (.refl _) h
  written n s := by
    have hrel := rel_ofSymbol? n s
    show Option.Rel _ (Job.ofSymbol? n s) (n.canonical? s)
    generalize hjobs : Job.ofSymbol? n s = jobs? at hrel ⊢
    generalize n.canonical? s = text? at hrel ⊢
    cases hrel with
    | none => exact .none
    | some hrun =>
      exact .some (hrun.looks (Job.isMark_of_ofSymbol? hjobs) (flatMap_ids_of_ofSymbol? hjobs))

/-- **Shifting, collecting and writing come to the same numbers,** in types, signatures, entries of
the table and symbols. -/
theorem traversals_agree :
    TypeExpr.traversals.Agree ∧ Signature.traversals.Agree ∧ TypeDef.traversals.Agree ∧
      Symbol.traversals.Agree :=
  ⟨TypeExpr.agree_traversals, Signature.agree_traversals, TypeDef.agree_traversals,
    Symbol.agree_traversals⟩

end CallPolicy
