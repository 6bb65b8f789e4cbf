import CallPolicy.Proofs.Expansion
import CallPolicy.Proofs.Writer

/-!
# Back-references and rings

An entry is written as a back-reference when it is met inside its own expansion.  That happens
exactly if the type leads into a ring of entries that show one another.  What an open expansion has
still to write is reached from its number, so a number that is met inside itself lies on a ring; and
a ring that has to be written stays to be written until some number of it is met again.  An entry
that is merely written twice, side by side, has been left before it is written again.

Without rings nothing is met, and a machine that keeps no active numbers and expands every entry
writes the same text.

## Main statements

* `Writer.exists_ring_of_meets` — a back-reference is written only on a ring.
* `Writer.exists_meets_of_ring` — a ring is not written without a back-reference.
* `PlainWriter.runs_of_runs` — a run without back-references is one without active numbers.
* `Writer.meets_iff_ring` — all of it together.
-/

namespace CallPolicy

open Relation

/-! ## Rings below numbers -/

namespace TypeTable

/-- A ring of entries that show one another can be reached from one of the numbers. -/
def RingBelow (types : TypeTable) (ids : List Nat) : Prop :=
  ∃ id ∈ ids, ∃ i, ReflTransGen types.Shows id i ∧ TransGen types.Shows i i

variable {types : TypeTable}

/-- A ring below a number is below one of those that its entry shows. -/
theorem RingBelow.exists_entry {id : Nat} (h : types.RingBelow [id]) :
    ∃ d, types[id]? = some d ∧ types.RingBelow d.shownIds := by
  obtain ⟨_, hid, i, hleads, hring⟩ := h
  obtain rfl := List.mem_singleton.1 hid
  rcases hleads.cases_head with rfl | ⟨j, ⟨d, hd, hj⟩, hji⟩
  · -- the number lies on the ring itself
    obtain ⟨j, ⟨d, hd, hj⟩, hback⟩ := TransGen.head'_iff.1 hring
    exact ⟨d, hd, j, hj, _, hback, hring⟩
  · exact ⟨d, hd, j, hj, i, hji, hring⟩

theorem ringBelow_iff {ids : List Nat} :
    types.RingBelow ids ↔ ∃ id ∈ ids, types.RingBelow [id] := by
  simp [RingBelow]

theorem ringBelow_append_iff {ids more : List Nat} :
    types.RingBelow (ids ++ more) ↔ types.RingBelow ids ∨ types.RingBelow more := by
  simp only [RingBelow, List.mem_append, or_and_right, exists_or]

theorem not_ringBelow_nil : ¬types.RingBelow [] := by
  rintro ⟨id, hid, -⟩
  cases hid

/-- No ring is below defined types whose type arguments lead to none; their underlying types make
no difference. -/
theorem not_ringBelow_of_defined {ids : List Nat}
    (h : ∀ id ∈ ids, ∀ d, types[id]? = some d →
      (∃ underlying, d.kind = .defined underlying) ∧ ∀ arg ∈ d.args, ¬types.RingBelow arg.ids) :
    ¬types.RingBelow ids := by
  intro hring
  obtain ⟨id, hid, hring⟩ := ringBelow_iff.1 hring
  obtain ⟨d, hd, hshown⟩ := hring.exists_entry
  obtain ⟨⟨underlying, hkind⟩, hargs⟩ := h id hid d hd
  rw [TypeDef.shownIds, hkind] at hshown
  obtain ⟨i, hi, hring⟩ := ringBelow_iff.1 hshown
  obtain ⟨arg, harg, hi⟩ := List.mem_flatMap.1 hi
  exact hargs arg harg (ringBelow_iff.2 ⟨i, hi, hring⟩)

end TypeTable

namespace Writer

variable {n : Naming} {w w' : Writer}

/-- The next thing to write is a number that is being expanded. -/
def Meets (n : Naming) (w : Writer) (id : Nat) : Prop :=
  id ∈ w.active ∧ (∃ d, n.types[id]? = some d) ∧ ∃ rest, w.todo = .named id :: rest

/-! ## A back-reference lies on a ring -/

/-- If the second job is the mark of an expansion, the number of it leads to those that the first
job is about to write. -/
def LedBy (n : Naming) (job later : Job) : Prop :=
  ∀ x, later = .leave x → ∀ i ∈ job.ids, TransGen n.types.Shows x i

/-- Where the numbers that are still to be written come from. -/
structure Linked (n : Naming) (roots : List Nat) (todo : List Job) : Prop where
  /-- Each expansion leads to what is to be written before it ends. -/
  inside : todo.Pairwise (LedBy n)
  /-- The numbers at the start lead to all others. -/
  reached : ∀ job ∈ todo, ∀ i ∈ job.ids, ∃ root ∈ roots, ReflTransGen n.types.Shows root i

theorem mem_marks_iff {id : Nat} {jobs : List Job} : id ∈ marks jobs ↔ .leave id ∈ jobs := by
  unfold marks
  rw [List.mem_filterMap]
  constructor
  · rintro ⟨job, hjob, hid⟩
    cases job with
    | leave id' =>
      obtain rfl := Option.some_inj.1 hid
      exact hjob
    | _ => cases hid
  · intro h
    exact ⟨_, h, rfl⟩

theorem pairwise_ledBy (n : Naming) {jobs : List Job} (h : ∀ job ∈ jobs, job.isMark = false) :
    jobs.Pairwise (LedBy n) := by
  refine List.pairwise_iff_forall_sublist.2 ?_
  rintro job later hsub x rfl
  have hmark := h _ (hsub.subset (List.mem_cons_of_mem _ List.mem_cons_self))
  cases hmark

theorem linked_start (n : Naming) {jobs : List Job} (h : ∀ job ∈ jobs, job.isMark = false) :
    Linked n (jobs.flatMap Job.ids) jobs where
  inside := pairwise_ledBy n h
  reached := fun job hjob i hi => ⟨i, List.mem_flatMap.2 ⟨job, hjob, hi⟩, .refl⟩

namespace Linked

variable {roots : List Nat} {job : Job} {rest : List Job}

theorem tail (h : Linked n roots (job :: rest)) : Linked n roots rest :=
  ⟨h.inside.of_cons, (List.forall_mem_cons.1 h.reached).2⟩

/-- A job may be replaced by jobs with some of its numbers. -/
theorem replace (h : Linked n roots (job :: rest)) (jobs : List Job)
    (hjobs : ∀ part ∈ jobs, part.isMark = false)
    (hids : ∀ part ∈ jobs, ∀ i ∈ part.ids, i ∈ job.ids) : Linked n roots (jobs ++ rest) where
  inside := by
    refine List.pairwise_append.2 ⟨pairwise_ledBy n hjobs, h.inside.of_cons, ?_⟩
    intro part hpart later hlater x hx i hi
    exact (List.pairwise_cons.1 h.inside).1 later hlater x hx i (hids part hpart i hi)
  reached := by
    rw [List.forall_mem_append]
    refine ⟨?_, h.tail.reached⟩
    intro part hpart i hi
    exact h.reached job List.mem_cons_self i (hids part hpart i hi)

/-- The job of an entry writes what its number shows, and the expansions around it lead there
too. -/
theorem enter {id : Nat} {d : TypeDef} (h : Linked n roots (.named id :: rest))
    (hid : n.types[id]? = some d) : Linked n roots (.ofEntry d :: .leave id :: rest) where
  inside := by
    have hshows : ∀ i ∈ (Job.ofEntry d).ids, n.types.Shows id i := by
      intro i hi
      rw [Job.ids_ofEntry] at hi
      exact ⟨d, hid, hi⟩
    refine List.pairwise_cons.2 ⟨?_, List.pairwise_cons.2 ⟨?_, h.inside.of_cons⟩⟩
    · rintro later hlater x rfl i hi
      rcases List.mem_cons.1 hlater with heq | hrest
      · obtain rfl := Job.leave.inj heq
        exact .single (hshows i hi)
      · have hleads := (List.pairwise_cons.1 h.inside).1 _ hrest x rfl id List.mem_cons_self
        exact hleads.tail (hshows i hi)
    · exact fun later _ x _ i hi => absurd hi List.not_mem_nil
  reached := by
    refine List.forall_mem_cons.2 ⟨?_, List.forall_mem_cons.2 ⟨?_, h.tail.reached⟩⟩
    · intro i hi
      rw [Job.ids_ofEntry] at hi
      obtain ⟨root, hroot, hleads⟩ := h.reached _ List.mem_cons_self id List.mem_cons_self
      exact ⟨root, hroot, hleads.tail ⟨d, hid, hi⟩⟩
    · exact fun i hi => absurd hi List.not_mem_nil

/-- A step keeps the numbers linked. -/
theorem step (h : Linked n roots w.todo) (hstep : w.step n = some w') :
    Linked n roots w'.todo := by
  cases step_cases hstep with
  | work _ hids hjobs =>
    refine h.replace _ hjobs ?_
    intro part hpart i hi
    rw [← hids]
    exact List.mem_flatMap.2 ⟨part, hpart, hi⟩
  | missing _ => exact h.replace [.text _] (by simp [Job.isMark]) (by simp [Job.ids])
  | met _ _ => exact h.replace [.text _] (by simp [Job.isMark]) (by simp [Job.ids])
  | enter hid _ => exact h.enter hid
  | leave => exact h.tail

end Linked

/-- **A back-reference is written only on a ring** that the jobs lead to. -/
theorem exists_ring_of_meets {jobs : List Job} (hjobs : ∀ job ∈ jobs, job.isMark = false)
    (hrun : Runs n (start jobs) w) {id : Nat} (h : w.Meets n id) :
    n.types.RingBelow (jobs.flatMap Job.ids) := by
  have hsound := (sound_start n hjobs).of_runs hrun
  have hlinked : Linked n (jobs.flatMap Job.ids) w.todo :=
    hrun.keeps (P := fun w => Linked n _ w.todo) Linked.step (linked_start n hjobs)
  obtain ⟨hactive, -, rest, htodo⟩ := h
  rw [htodo] at hlinked
  have hmark : .leave id ∈ rest := by
    rw [hsound.open_eq, htodo, marks_cons rfl] at hactive
    exact mem_marks_iff.1 hactive
  obtain ⟨root, hroot, hleads⟩ := hlinked.reached _ List.mem_cons_self id List.mem_cons_self
  have hring := (List.pairwise_cons.1 hlinked.inside).1 _ hmark id rfl id List.mem_cons_self
  exact ⟨root, hroot, id, hleads, hring⟩

/-! ## A ring is written with a back-reference -/

/-- A step leaves a ring to be written, unless it writes a back-reference. -/
theorem ringBelow_step (hstep : w.step n = some w') (hmeets : ∀ id, ¬w.Meets n id)
    (h : n.types.RingBelow (w.todo.flatMap Job.ids)) :
    n.types.RingBelow (w'.todo.flatMap Job.ids) := by
  cases step_cases hstep with
  | work _ hids _ =>
    rw [List.flatMap_cons] at h
    rwa [List.flatMap_append, hids]
  | missing hid =>
    rw [List.flatMap_cons] at h
    rcases TypeTable.ringBelow_append_iff.1 h with hring | hring
    · obtain ⟨d, hd, -⟩ := hring.exists_entry
      rw [hid] at hd
      cases hd
    · exact hring
  | met hid hactive => exact absurd ⟨hactive, ⟨_, hid⟩, _, rfl⟩ (hmeets _)
  | @enter id d rest active out hid hnew =>
    rw [List.flatMap_cons] at h
    rw [List.flatMap_cons, Job.ids_ofEntry, TypeTable.ringBelow_append_iff]
    rcases TypeTable.ringBelow_append_iff.1 h with hring | hring
    · obtain ⟨d', hd', hshown⟩ := hring.exists_entry
      obtain rfl := Option.some_inj.1 (hid.symm.trans hd')
      exact .inl hshown
    · exact .inr hring
  | leave => exact h

/-- **A ring is not written without a back-reference:** in the end nothing is left to be written. -/
theorem exists_meets_of_ring (hrun : Runs n w w') (hend : w'.todo = [])
    (h : n.types.RingBelow (w.todo.flatMap Job.ids)) : ∃ v id, Runs n w v ∧ v.Meets n id := by
  induction hrun using ReflTransGen.head_induction_on with
  | refl =>
    rw [hend] at h
    exact absurd h TypeTable.not_ringBelow_nil
  | @head w next hstep _ ih =>
    by_cases hmeets : ∃ id, w.Meets n id
    · obtain ⟨id, hid⟩ := hmeets
      exact ⟨w, id, .refl, hid⟩
    · obtain ⟨v, id, hrest, hid⟩ := ih (ringBelow_step hstep (not_exists.1 hmeets) h)
      exact ⟨v, id, .head hstep hrest, hid⟩

end Writer

/-! ## Writing without active numbers -/

/-- A state of the machine that keeps no active numbers. -/
structure PlainWriter where
  todo : List Job
  out : String

namespace PlainWriter

/-- Nothing has been done yet. -/
def start (jobs : List Job) : PlainWriter := ⟨jobs, ""⟩

/-- Everything has been done. -/
def done (out : String) : PlainWriter := ⟨[], out⟩

/-- The state after a job has been taken up; every entry is expanded. -/
def perform (n : Naming) (rest : List Job) (out : String) : Job → PlainWriter
  | .text s => ⟨rest, out ++ s⟩
  | .named id =>
    match n.types[id]? with
    | none => ⟨.text invalidType :: rest, out⟩
    | some d => ⟨.ofEntry d :: rest, out⟩
  | job => ⟨job.parts n ++ rest, out⟩

/-- One step; the machine stops when nothing is left to do. -/
def step (n : Naming) (w : PlainWriter) : Option PlainWriter :=
  match w.todo with
  | [] => none
  | job :: rest => some (perform n rest w.out job)

/-- The machine comes from one state to another. -/
def Runs (n : Naming) : PlainWriter → PlainWriter → Prop :=
  ReflTransGen fun w w' => w.step n = some w'

/-- What is left of a state without marks and active numbers. -/
def ofWriter (w : Writer) : PlainWriter :=
  ⟨w.todo.filter fun job => !job.isMark, w.out⟩

theorem perform_of_isCompound (n : Naming) (rest : List Job) (out : String) {job : Job}
    (h : job.isCompound = true) : perform n rest out job = ⟨job.parts n ++ rest, out⟩ := by
  cases job with
  | text _ | named _ | leave _ => cases h
  | _ => rfl

variable {n : Naming} {w w' : Writer}

theorem ofWriter_cons {job : Job} (h : job.isMark = false) (rest : List Job) (active : List Nat)
    (out : String) :
    ofWriter ⟨job :: rest, active, out⟩ = ⟨job :: (ofWriter ⟨rest, active, out⟩).todo, out⟩ := by
  simp [ofWriter, h]

/-- A step that writes no back-reference is one without active numbers, or none at all where an
expansion ends. -/
theorem runs_of_step (hstep : w.step n = some w') (hmeets : ∀ id, ¬w.Meets n id) :
    Runs n (ofWriter w) (ofWriter w') := by
  obtain ⟨todo, active, out⟩ := w
  cases todo with
  | nil => cases hstep
  | cons job rest =>
    obtain rfl : Writer.perform n rest active out job = w' := Option.some_inj.1 hstep
    by_cases hjob : job.isCompound = true
    · have hparts : ((job.parts n).filter fun part => !part.isMark) = job.parts n := by
        rw [List.filter_eq_self]
        intro part hpart
        rw [Job.isMark_of_mem_parts n job part hpart]
        rfl
      refine .single ?_
      rw [ofWriter_cons (Job.isMark_of_isCompound hjob), Writer.perform_of_isCompound _ _ _ _ hjob]
      refine (congrArg some (perform_of_isCompound n _ out hjob)).trans ?_
      rw [ofWriter, ofWriter, List.filter_append, hparts]
    · cases job with
      | text s => exact .single rfl
      | leave id => exact .refl
      | named id =>
        refine .single ?_
        rw [Writer.perform]
        cases hid : n.types[id]? with
        | none => simp [ofWriter, step, perform, hid, Job.isMark]
        | some d =>
          have hnew : id ∉ active := fun hactive => hmeets id ⟨hactive, ⟨d, hid⟩, rest, rfl⟩
          simp only [if_neg hnew]
          rw [ofWriter_cons rfl, ofWriter_cons (Job.isMark_ofEntry d)]
          simp only [step, perform, hid]
          rfl
      | _ => exact absurd rfl hjob

/-- **A run without back-references is one without active numbers.** -/
theorem runs_of_runs (hrun : Writer.Runs n w w')
    (hmeets : ∀ v id, Writer.Runs n w v → ¬v.Meets n id) : Runs n (ofWriter w) (ofWriter w') := by
  induction hrun with
  | refl => exact .refl
  | @tail v v' hbefore hstep ih => exact ih.trans (runs_of_step hstep fun id => hmeets v id hbefore)

end PlainWriter

namespace Writer

/-- **Back-references are written exactly for rings.**  A type that leads into no ring has the text
that is written without active numbers, with every entry expanded; a back-reference is written for a
type exactly if it leads into a ring; and none is written for defined types whose type arguments
lead into no ring, however their underlying types refer to one another. -/
theorem meets_iff_ring (n : Naming) (t : TypeExpr) :
    (¬n.types.RingBelow t.ids →
      PlainWriter.Runs n (.start [.type t]) (.done (n.typeText t))) ∧
    ((∃ w id, Runs n (start [.type t]) w ∧ w.Meets n id) ↔ n.types.RingBelow t.ids) ∧
    ((∀ id ∈ t.ids, ∀ d, n.types[id]? = some d →
        (∃ underlying, d.kind = .defined underlying) ∧
          ∀ arg ∈ d.args, ¬n.types.RingBelow arg.ids) →
      ∀ w id, Runs n (start [.type t]) w → ¬w.Meets n id) := by
  have hjobs : ∀ job ∈ [Job.type t], job.isMark = false := by simp [Job.isMark]
  have hids : [Job.type t].flatMap Job.ids = t.ids := List.append_nil _
  have honly : ∀ w id, Runs n (start [.type t]) w → w.Meets n id → n.types.RingBelow t.ids := by
    intro w id hreach hmeets
    rw [← hids]
    exact exists_ring_of_meets hjobs hreach hmeets
  refine ⟨?_, ⟨?_, ?_⟩, ?_⟩
  · intro hring
    refine PlainWriter.runs_of_runs (runs_type n t) ?_
    exact fun w id hreach hmeets => hring (honly w id hreach hmeets)
  · rintro ⟨w, id, hreach, hmeets⟩
    exact honly w id hreach hmeets
  · intro hring
    rw [← hids] at hring
    exact exists_meets_of_ring (runs_type n t) rfl hring
  · intro hdefined w id hreach hmeets
    exact TypeTable.not_ringBelow_of_defined hdefined (honly w id hreach hmeets)

/-- Two defined types with each other in their underlying types, and an alias for a pointer to
itself. -/
def knots : Naming where
  types :=
    [⟨⟨"m"⟩, "A", [], .defined (.slice (.named 1))⟩,
      ⟨⟨"m"⟩, "B", [], .defined (.pointer (.named 0))⟩,
      ⟨⟨"m"⟩, "C", [], .alias (.pointer (.named 2))⟩]
  origins := .empty

theorem meets_iff_ring_knots :
    ¬knots.types.RingBelow (TypeExpr.map (.named 0) (.named 1)).ids ∧
    PlainWriter.Runs knots (.start [.type (.map (.named 0) (.named 1))]) (.done "map[m.A]m.B") ∧
    (∀ w id, Runs knots (start [.type (.map (.named 0) (.named 1))]) w → ¬w.Meets knots id) ∧
    knots.types.RingBelow (TypeExpr.named 2).ids ∧
    ∃ w id, Runs knots (start [.type (.named 2)]) w ∧ w.Meets knots id := by
  obtain ⟨hplain, -, hdefined⟩ := meets_iff_ring knots (.map (.named 0) (.named 1))
  obtain ⟨-, hiff, -⟩ := meets_iff_ring knots (.named 2)
  have hids : ∀ id ∈ (TypeExpr.map (.named 0) (.named 1)).ids, ∀ d, knots.types[id]? = some d →
      (∃ underlying, d.kind = .defined underlying) ∧
        ∀ arg ∈ d.args, ¬knots.types.RingBelow arg.ids := by
    intro id hid d hd
    have hid : id = 0 ∨ id = 1 := by simpa [TypeExpr.ids] using hid
    rcases hid with rfl | rfl
    · obtain rfl := Option.some_inj.1 hd
      exact ⟨⟨_, rfl⟩, fun _ harg => absurd harg List.not_mem_nil⟩
    · obtain rfl := Option.some_inj.1 hd
      exact ⟨⟨_, rfl⟩, fun _ harg => absurd harg List.not_mem_nil⟩
  have hnone := TypeTable.not_ringBelow_of_defined hids
  have hring : knots.types.RingBelow (TypeExpr.named 2).ids :=
    ⟨2, List.mem_singleton_self 2, 2, .refl, .single ⟨_, rfl, List.mem_singleton_self 2⟩⟩
  exact ⟨hnone, hplain hnone, hdefined hids, hring, hiff.2 hring⟩

end Writer

end CallPolicy
