import CallPolicy.Proofs.Job
import Mathlib.Logic.Relation

/-!
# Writing step by step

The text of a type is defined from the outside in: each expansion hands the numbers that are being
written to the texts inside it, and a budget bounds its depth.  Here the same text is written by a
machine that has neither.  It works through a stack of jobs.  To expand an entry it notes the number
in its one list of active numbers, leaves a mark below the jobs of the entry, and strikes the number
out when it comes to the mark.

## Termination

A step is a function of the state, and there is a step as long as there is something to do.  That
the machine comes to an end is a theorem: the numbers of the marks on the stack are distinct and in
the table, so only as many expansions can be open as there are entries, and between two expansions
the jobs get smaller.

## Main statements

* `Writer.step_cases` — what a step can do.
* `Writer.Sound.of_runs` — at any moment the active numbers are those of the marks on the stack,
  distinct and in the table.
* `Job.completes` — every job is done; it leaves the active numbers as it found them and writes the
  text that it has inside them.
* `Writer.ends_and_restores` — the machine writes every type, signature and symbol, and each job of
  it as if it were the only one.
-/

namespace CallPolicy

open Relation

/-! ## The machine -/

/-- A state of the machine that writes types. -/
structure Writer where
  /-- What is still to be done, the next job first. -/
  todo : List Job
  /-- The numbers that are being expanded, the innermost first. -/
  active : List Nat
  /-- What has been written. -/
  out : String

namespace Writer

/-- Nothing has been done yet. -/
def start (jobs : List Job) : Writer := ⟨jobs, [], ""⟩

/-- Everything has been done. -/
def done (out : String) : Writer := ⟨[], [], out⟩

/-- The state after a job has been taken up, with the others to do afterwards. -/
def perform (n : Naming) (rest : List Job) (active : List Nat) (out : String) : Job → Writer
  | .text s => ⟨rest, active, out ++ s⟩
  | .leave id => ⟨rest, active.erase id, out⟩
  | .named id =>
    match n.types[id]? with
    | none => ⟨.text invalidType :: rest, active, out⟩
    | some d =>
      -- met inside its own expansion
      if id ∈ active then ⟨.text (n.backReference d) :: rest, active, out⟩
      else ⟨.ofEntry d :: .leave id :: rest, id :: active, out⟩
  | job => ⟨job.parts n ++ rest, active, out⟩

/-- One step; the machine stops when nothing is left to do. -/
def step (n : Naming) (w : Writer) : Option Writer :=
  match w.todo with
  | [] => none
  | job :: rest => some (perform n rest w.active w.out job)

/-- The machine comes from one state to another. -/
def Runs (n : Naming) : Writer → Writer → Prop :=
  ReflTransGen fun w w' => w.step n = some w'

/-- The expansions that the marks in a list of jobs will end. -/
def marks (jobs : List Job) : List Nat :=
  jobs.filterMap fun
    | .leave id => some id
    | _ => none

/-- The active numbers are those of the marks on the stack, distinct and in the table. -/
structure Sound (n : Naming) (w : Writer) : Prop where
  open_eq : w.active = marks w.todo
  nodup : w.active.Nodup
  inTable : ∀ id ∈ w.active, id < n.types.length

/-! ## What a step can do -/

theorem perform_of_isCompound (n : Naming) (rest : List Job) (active : List Nat) (out : String)
    {job : Job} (h : job.isCompound = true) :
    perform n rest active out job = ⟨job.parts n ++ rest, active, out⟩ := by
  cases job with
  | text _ | named _ | leave _ => cases h
  | _ => rfl

/-- What a step can do. -/
inductive Move (n : Naming) : Writer → Writer → Prop
  /-- A text is written, or a job is replaced by the jobs that it consists of. -/
  | work {job jobs rest active out s} (hjob : job.isMark = false)
      (hids : jobs.flatMap Job.ids = job.ids) (hjobs : ∀ part ∈ jobs, part.isMark = false) :
      Move n ⟨job :: rest, active, out⟩ ⟨jobs ++ rest, active, out ++ s⟩
  /-- A number that is missing from the table is written as such. -/
  | missing {id rest active out} (hid : n.types[id]? = none) :
      Move n ⟨.named id :: rest, active, out⟩ ⟨.text invalidType :: rest, active, out⟩
  /-- A number that is being expanded is written as a back-reference. -/
  | met {id d rest active out} (hid : n.types[id]? = some d) (hactive : id ∈ active) :
      Move n ⟨.named id :: rest, active, out⟩ ⟨.text (n.backReference d) :: rest, active, out⟩
  /-- Any other number is expanded. -/
  | enter {id d rest active out} (hid : n.types[id]? = some d) (hnew : id ∉ active) :
      Move n ⟨.named id :: rest, active, out⟩
        ⟨.ofEntry d :: .leave id :: rest, id :: active, out⟩
  /-- An expansion ends. -/
  | leave {id rest active out} :
      Move n ⟨.leave id :: rest, active, out⟩ ⟨rest, active.erase id, out⟩

/-- **A step does one of five things.** -/
theorem step_cases {n : Naming} {w w' : Writer} (h : w.step n = some w') : Move n w w' := by
  obtain ⟨todo, active, out⟩ := w
  cases todo with
  | nil => cases h
  | cons job rest =>
    obtain rfl : perform n rest active out job = w' := Option.some_inj.1 h
    by_cases hjob : job.isCompound = true
    · have hmove : Move n ⟨job :: rest, active, out⟩ ⟨job.parts n ++ rest, active, out ++ ""⟩ :=
        .work (Job.isMark_of_isCompound hjob) (Job.flatMap_ids_parts n hjob)
          (Job.isMark_of_mem_parts n job)
      rwa [String.append_empty, ← perform_of_isCompound n rest active out hjob] at hmove
    · cases job with
      | text s =>
        show Move n _ ⟨[] ++ rest, active, out ++ s⟩
        exact .work rfl rfl (by simp)
      | leave id => exact .leave
      | named id =>
        rw [perform]
        cases hid : n.types[id]? with
        | none => exact .missing hid
        | some d =>
          by_cases hactive : id ∈ active
          · simp only [if_pos hactive]
            exact .met hid hactive
          · simp only [if_neg hactive]
            exact .enter hid hactive
      | _ => exact absurd rfl hjob

/-! ## The active numbers -/

@[simp]
theorem marks_leave (id : Nat) (jobs : List Job) : marks (.leave id :: jobs) = id :: marks jobs :=
  rfl

theorem marks_cons {job : Job} (h : job.isMark = false) (jobs : List Job) :
    marks (job :: jobs) = marks jobs := by
  cases job with
  | leave _ => cases h
  | _ => rfl

theorem marks_append {jobs : List Job} (h : ∀ job ∈ jobs, job.isMark = false) (rest : List Job) :
    marks (jobs ++ rest) = marks rest := by
  induction jobs with
  | nil => rfl
  | cons job jobs ih =>
    rw [List.forall_mem_cons] at h
    rw [List.cons_append, marks_cons h.1, ih h.2]

variable {n : Naming} {w w' : Writer}

/-- A step keeps the active numbers sound. -/
theorem Sound.step (h : w.Sound n) (hstep : w.step n = some w') : w'.Sound n := by
  obtain ⟨hopen, hnodup, hin⟩ := h
  cases step_cases hstep with
  | work hjob _ hjobs =>
    refine ⟨?_, hnodup, hin⟩
    rw [marks_cons hjob] at hopen
    rw [marks_append hjobs]
    exact hopen
  | missing _ => exact ⟨hopen, hnodup, hin⟩
  | met _ _ => exact ⟨hopen, hnodup, hin⟩
  | @enter id d rest active out hid hnew =>
    refine ⟨?_, List.nodup_cons.2 ⟨hnew, hnodup⟩, List.forall_mem_cons.2 ⟨?_, hin⟩⟩
    · rw [marks_cons (Job.isMark_ofEntry d), marks_leave]
      exact congrArg (id :: ·) hopen
    · exact (List.getElem?_eq_some_iff.1 hid).1
  | @leave id rest active out =>
    -- the mark on top is that of the innermost expansion
    obtain rfl : active = id :: marks rest := hopen
    rw [List.erase_cons_head]
    exact ⟨rfl, hnodup.of_cons, (List.forall_mem_cons.1 hin).2⟩

/-- What every step keeps holds at any moment of a run. -/
theorem Runs.keeps {P : Writer → Prop} (hrun : Runs n w w')
    (hstep : ∀ {w w' : Writer}, P w → w.step n = some w' → P w') (h : P w) : P w' := by
  induction hrun with
  | refl => exact h
  | tail _ hlast ih => exact hstep ih hlast

/-- **At any moment the active numbers are sound.** -/
theorem Sound.of_runs (h : w.Sound n) (hrun : Runs n w w') : w'.Sound n :=
  hrun.keeps Sound.step h

theorem sound_start (n : Naming) {jobs : List Job} (h : ∀ job ∈ jobs, job.isMark = false) :
    (start jobs).Sound n where
  open_eq := by
    have hmarks := marks_append h []
    rw [List.append_nil] at hmarks
    exact hmarks.symm
  nodup := .nil
  inTable := fun _ h => absurd h List.not_mem_nil

theorem Sound.expanding (h : w.Sound n) :
    n.Expanding (n.types.length - w.active.length) w.active where
  nodup := h.nodup
  inTable := h.inTable
  covered := by omega

/-- Only as many expansions are open as there are entries. -/
theorem Sound.length_active_le (h : w.Sound n) : w.active.length ≤ n.types.length := by
  have hsub : w.active ⊆ List.range n.types.length := fun id hid =>
    List.mem_range.2 (h.inTable id hid)
  have hlength := (h.nodup.subperm hsub).length_le
  rwa [List.length_range] at hlength

/-! ## Jobs among others -/

/-- The state with other jobs to do afterwards, and a text before what has been written. -/
def above (w : Writer) (rest : List Job) (before : String) : Writer :=
  ⟨w.todo ++ rest, w.active, before ++ w.out⟩

theorem perform_above (n : Naming) (todo : List Job) (active : List Nat) (out : String)
    (rest : List Job) (before : String) (job : Job) :
    perform n (todo ++ rest) active (before ++ out) job =
      (perform n todo active out job).above rest before := by
  cases job with
  | text s => simp [perform, above, String.append_assoc]
  | named id =>
    rw [perform, perform]
    cases n.types[id]? with
    | none => rfl
    | some d => by_cases hactive : id ∈ active <;> simp [above, hactive]
  | _ => simp [perform, above]

theorem step_above (h : w.step n = some w') (rest : List Job) (before : String) :
    (w.above rest before).step n = some (w'.above rest before) := by
  obtain ⟨todo, active, out⟩ := w
  cases todo with
  | nil => cases h
  | cons job todo =>
    obtain rfl : perform n todo active out job = w' := Option.some_inj.1 h
    exact congrArg some (perform_above n todo active out rest before job)

/-- A run does not touch what is to be done afterwards, nor depends on it. -/
theorem Runs.above (h : Runs n w w') (rest : List Job) (before : String) :
    Runs n (w.above rest before) (w'.above rest before) :=
  ReflTransGen.lift (fun w : Writer => w.above rest before)
    (fun _ _ hstep => step_above hstep rest before) w w' h

end Writer

/-! ## Every job is done -/

namespace Job

open Writer

variable {n : Naming} {active : List Nat} {refer : Nat → String}

/-- The job on its own is done: it writes the text and leaves the active numbers as it found
them. -/
def Completes (n : Naming) (active : List Nat) (job : Job) (s : String) : Prop :=
  Runs n ⟨[job], active, ""⟩ ⟨[], active, s⟩

/-- A job that is done on its own is done in the same way among others. -/
theorem Completes.runs {job : Job} {s : String} (h : job.Completes n active s) (rest : List Job)
    (out : String) : Runs n ⟨job :: rest, active, out⟩ ⟨rest, active, out ++ s⟩ := by
  have hrun := Runs.above h rest out
  rwa [above, above, String.append_empty] at hrun

/-- Jobs that are done on their own are done one after the other. -/
theorem runs_all {jobs : List Job}
    (h : ∀ job ∈ jobs, job.Completes n active (job.written n refer)) (rest : List Job)
    (out : String) :
    Runs n ⟨jobs ++ rest, active, out⟩ ⟨rest, active, out ++ writtenAll n refer jobs⟩ := by
  induction jobs generalizing out with
  | nil =>
    rw [writtenAll_nil, String.append_empty]
    exact .refl
  | cons job jobs ih =>
    rw [List.forall_mem_cons] at h
    rw [writtenAll_cons, ← String.append_assoc]
    exact (h.1.runs (jobs ++ rest) out).trans (ih h.2 _)

theorem completes_text (n : Naming) (active : List Nat) (s : String) :
    (text s).Completes n active s := by
  have hrun : Runs n ⟨[text s], active, ""⟩ ⟨[], active, "" ++ s⟩ := .single rfl
  rwa [String.empty_append] at hrun

/-- A job is done if the jobs that it consists of are. -/
theorem completes_of_parts (job : Job) (hjob : job.isCompound = true)
    (h : ∀ part ∈ job.parts n, part.Completes n active (part.written n refer)) :
    job.Completes n active (job.written n refer) := by
  have hstep : (⟨[job], active, ""⟩ : Writer).step n = some ⟨job.parts n ++ [], active, ""⟩ :=
    congrArg some (perform_of_isCompound n [] active "" hjob)
  have hrun := runs_all h [] ""
  rw [writtenAll_parts n refer hjob, String.empty_append] at hrun
  exact .head hstep hrun

/-- A signature is done if its parts are. -/
theorem completes_signature {s : Signature}
    (h : ∀ t ∈ s.parts, (type t).Completes n active (t.render refer) ∧
      (type t.spread).Completes n active (t.spread.render refer)) :
    (signature s).Completes n active (s.render refer) := by
  refine completes_of_parts (signature s) rfl ?_
  exact forall_mem_ofSignature (fun s => completes_text n active s) h

/-- A text before a job. -/
theorem completes_pair {job : Job} (h : job.Completes n active (job.written n refer)) (s : String) :
    ∀ part ∈ [text s, job], part.Completes n active (part.written n refer) :=
  List.forall_mem_cons.2 ⟨completes_text n active s, List.forall_mem_singleton.2 h⟩

/-- A channel is done if its element is. -/
theorem completes_chan {elem : TypeExpr} (h : (type elem).Completes n active (elem.render refer))
    (dir : ChanDir) :
    (chan dir elem).Completes n active ((TypeExpr.chan dir elem).render refer) := by
  refine completes_of_parts (chan dir elem) rfl ?_
  rw [parts, ofChan]
  split
  · have htext : ∀ s, (text s).Completes n active s := completes_text n active
    exact List.forall_mem_cons.2 ⟨htext _, List.forall_mem_cons.2
      ⟨htext _, List.forall_mem_cons.2 ⟨h, List.forall_mem_singleton.2 (htext _)⟩⟩⟩
  · exact completes_pair h _

/-- Items between two texts are done if the jobs of each of them are. -/
theorem completes_enclosed {opening sep closing : String} {items : List (List Job)}
    (h : ∀ item ∈ items, ∀ part ∈ item, part.Completes n active (part.written n refer)) :
    ∀ part ∈ text opening :: (separated sep items ++ [text closing]),
      part.Completes n active (part.written n refer) := by
  have htext : ∀ s, (text s).Completes n active ((text s).written n refer) :=
    completes_text n active
  refine List.forall_mem_cons.2 ⟨htext _, List.forall_mem_append.2 ?_⟩
  exact ⟨forall_mem_separated (htext _) h, List.forall_mem_singleton.2 (htext _)⟩

/-- A type is done if declared types are. -/
theorem completes_type (hnamed : ∀ id, (named id).Completes n active (refer id)) (t : TypeExpr) :
    (type t).Completes n active (t.render refer) := by
  have hone : ∀ {t job}, ofType t = [job] → job.Completes n active (job.written n refer) →
      (type t).Completes n active (t.render refer) := by
    intro t job ht hjob
    refine completes_of_parts (type t) rfl ?_
    rw [parts, ht]
    exact List.forall_mem_singleton.2 hjob
  induction t using TypeExpr.induct with
  | basic name => exact hone rfl (completes_text n active name)
  | typeParam name => exact hone rfl (completes_text n active name)
  | named id => exact hone rfl (hnamed id)
  | chan dir elem ih => exact hone rfl (completes_chan ih dir)
  | pointer elem ih => exact completes_of_parts (type _) rfl (completes_pair ih _)
  | slice elem ih => exact completes_of_parts (type _) rfl (completes_pair ih _)
  | array len elem ih => exact completes_of_parts (type _) rfl (completes_pair ih _)
  | func s ih =>
    exact completes_of_parts (type _) rfl (completes_pair (completes_signature ih) _)
  | map key value ihk ihv =>
    refine completes_of_parts (type _) rfl ?_
    exact List.forall_mem_append.2 ⟨completes_pair ihk _, completes_pair ihv _⟩
  | struct fields ih =>
    refine completes_of_parts (type _) rfl (completes_enclosed ?_)
    rw [List.forall_mem_map]
    intro b hb
    rw [ofField]
    split
    · exact List.forall_mem_singleton.2 (ih b hb)
    · exact List.forall_mem_cons.2 ⟨completes_text n active _, completes_pair (ih b hb) _⟩
  | interface methods ih =>
    refine completes_of_parts (type _) rfl (completes_enclosed ?_)
    rw [List.forall_mem_map]
    intro m hm
    exact completes_pair (completes_signature (ih m hm)) _

/-- A defined type is done if the declared types in its arguments are. -/
theorem completes_defined (hnamed : ∀ id, (named id).Completes n active (refer id))
    (d : TypeDef) : (defined d).Completes n active ((defined d).written n refer) := by
  refine completes_of_parts _ rfl ?_
  refine List.forall_mem_cons.2 ⟨completes_text n active _, forall_mem_inBrackets ?_ ?_⟩
  · exact completes_text n active
  · rw [List.forall_mem_map]
    intro arg _
    exact List.forall_mem_singleton.2 (completes_type hnamed arg)

/-- An entry is done if declared types are. -/
theorem completes_ofEntry (hnamed : ∀ id, (named id).Completes n active (refer id)) (d : TypeDef) :
    (ofEntry d).Completes n active (n.entryText refer d) := by
  rw [← written_ofEntry, ofEntry]
  cases d.kind with
  | «alias» target => exact completes_type hnamed target
  | defined underlying => exact completes_defined hnamed d

/-- A step that leaves one text to write. -/
theorem completes_of_step_text {id : Nat} {s : String}
    (hstep : (⟨[named id], active, ""⟩ : Writer).step n = some ⟨[text s], active, ""⟩) :
    (named id).Completes n active s :=
  .head hstep (completes_text n active s)

/-- **A declared type is done.**  The induction is on the part of the table that is not being
expanded. -/
theorem completes_named {budget : Nat} (h : n.Expanding budget active) (id : Nat) :
    (named id).Completes n active (n.refer budget active id) := by
  induction budget generalizing active id with
  | zero =>
    rw [Naming.refer]
    cases hid : n.types[id]? with
    | none => exact completes_of_step_text (by simp [Writer.step, perform, hid])
    | some d =>
      have hactive := h.mem_of_zero (List.getElem?_eq_some_iff.1 hid).1
      exact completes_of_step_text (by simp [Writer.step, perform, hid, hactive])
  | succ budget ih =>
    rw [Naming.refer]
    cases hid : n.types[id]? with
    | none => exact completes_of_step_text (by simp [Writer.step, perform, hid])
    | some d =>
      by_cases hactive : id ∈ active
      · simp only [if_pos hactive]
        exact completes_of_step_text (by simp [Writer.step, perform, hid, hactive])
      · simp only [if_neg hactive]
        have henter : (⟨[named id], active, ""⟩ : Writer).step n =
            some ⟨[ofEntry d, leave id], id :: active, ""⟩ := by
          simp [Writer.step, perform, hid, hactive]
        have hleave : ∀ out, (⟨[leave id], id :: active, out⟩ : Writer).step n =
            some ⟨[], active, out⟩ := by
          simp [Writer.step, perform]
        have hinner := completes_ofEntry (fun i => ih (h.step hid hactive) i) d
        have hrun := hinner.runs [leave id] ""
        rw [String.empty_append] at hrun
        exact .head henter (hrun.tail (hleave _))

/-- **Every job is done,** with the text that it has inside the active numbers. -/
theorem completes {budget : Nat} (h : n.Expanding budget active) {job : Job}
    (hjob : job.isMark = false) :
    job.Completes n active (job.written n (n.refer budget active)) := by
  have hnamed := completes_named h
  have htype := completes_type hnamed
  cases job with
  | text s => exact completes_text n active s
  | type t => exact htype t
  | chan dir elem => exact completes_chan (htype elem) dir
  | signature s => exact completes_signature fun t _ => ⟨htype t, htype t.spread⟩
  | named id => exact hnamed id
  | defined d => exact completes_defined hnamed d
  | leave id => cases hjob

/-- The text of a job inside the numbers that are being expanded. -/
def textIn (n : Naming) (active : List Nat) (job : Job) : String :=
  job.written n (n.refer (n.types.length - active.length) active)

end Job

namespace Writer

variable {n : Naming} {w w' : Writer}

/-- From a state from which some run comes to an end, no run goes on for ever. -/
theorem acc_of_runs (hrun : Runs n w w') (hend : w'.step n = none) :
    Acc (fun later earlier : Writer => earlier.step n = some later) w := by
  induction hrun using ReflTransGen.head_induction_on with
  | refl =>
    refine .intro _ ?_
    intro later hlater
    rw [hend] at hlater
    cases hlater
  | head hstep _ ih =>
    refine .intro _ ?_
    intro later hlater
    -- a step is a function of the state
    obtain rfl := Option.some_inj.1 (hstep.symm.trans hlater)
    exact ih

/-- Jobs on top of the stack are done one after the other, each as if it were the only one. -/
theorem Sound.balanced (h : w.Sound n) {jobs rest : List Job} (htodo : w.todo = jobs ++ rest)
    (hjobs : ∀ job ∈ jobs, job.isMark = false) :
    (∀ job ∈ jobs, job.Completes n w.active (job.textIn n w.active)) ∧
      Runs n w ⟨rest, w.active, w.out ++ String.join (jobs.map (Job.textIn n w.active))⟩ := by
  obtain ⟨todo, active, out⟩ := w
  obtain rfl : todo = jobs ++ rest := htodo
  have hall : ∀ job ∈ jobs, job.Completes n active (job.textIn n active) := fun job hjob =>
    Job.completes h.expanding (hjobs job hjob)
  exact ⟨hall, Job.runs_all hall rest out⟩

/-- A start with any jobs comes to its end. -/
theorem runs_start (n : Naming) (jobs : List Job) (h : ∀ job ∈ jobs, job.isMark = false) :
    Runs n (start jobs) (done (Job.writtenAll n n.typeRef jobs)) := by
  have hrun := ((sound_start n h).balanced (List.append_nil jobs).symm h).2
  rwa [start, String.empty_append] at hrun

/-- A type is written with its text. -/
theorem runs_type (n : Naming) (t : TypeExpr) :
    Runs n (start [.type t]) (done (n.typeText t)) := by
  have hrun := runs_start n [.type t] (by simp [Job.isMark])
  rwa [Job.writtenAll_cons, Job.writtenAll_nil, String.append_empty] at hrun

/-- A symbol is written with its canonical signature; what has none is not written. -/
theorem rel_ofSymbol? (n : Naming) (s : Symbol) :
    Option.Rel (fun jobs text => Runs n (start jobs) (done text))
      (Job.ofSymbol? n s) (n.canonical? s) := by
  obtain ⟨name, module, kind⟩ := s
  cases kind with
  | function signature =>
    refine .some ?_
    have hrun := runs_start n
      [.text "func ", .text (n.qualified module name), .signature signature] (by simp [Job.isMark])
    simpa [Job.written, Naming.signatureText, String.append_assoc] using hrun
  | method receiver signature =>
    refine .some ?_
    have hrun := runs_start n
      [.text "func (", .type receiver.type, .text ").", .text name, .signature signature]
      (by simp [Job.isMark])
    simpa [Job.written, Naming.signatureText, Naming.typeText, String.append_assoc] using hrun
  | «variable» => exact .none
  | constant => exact .none
  | typeName => exact .none

/-- **Writing ends and restores the active numbers, whatever the table holds.**  Every type,
signature and symbol is written with its text.  From the start with any jobs no run goes on for
ever, and at any moment the active numbers are distinct and in the table, so that no more expansions
are open than there are entries; and jobs on top of the stack are done, leave the active numbers as
they were, and write the text that each of them writes on its own inside these numbers. -/
theorem ends_and_restores (n : Naming) :
    (∀ t : TypeExpr, Runs n (start [.type t]) (done (n.typeText t))) ∧
    (∀ s : Signature, Runs n (start [.signature s]) (done (n.signatureText s))) ∧
    (∀ s : Symbol, Option.Rel (fun jobs text => Runs n (start jobs) (done text))
      (Job.ofSymbol? n s) (n.canonical? s)) ∧
    ∀ jobs : List Job, (∀ job ∈ jobs, job.isMark = false) →
      Acc (fun later earlier : Writer => earlier.step n = some later) (start jobs) ∧
      ∀ w, Runs n (start jobs) w →
        w.Sound n ∧ w.active.length ≤ n.types.length ∧
        ∀ calls rest, w.todo = calls ++ rest → (∀ job ∈ calls, job.isMark = false) →
          (∀ job ∈ calls, job.Completes n w.active (job.textIn n w.active)) ∧
          Runs n w
            ⟨rest, w.active, w.out ++ String.join (calls.map (Job.textIn n w.active))⟩ := by
  refine ⟨runs_type n, ?_, rel_ofSymbol? n, ?_⟩
  · intro s
    have hrun := runs_start n [.signature s] (by simp [Job.isMark])
    rwa [Job.writtenAll_cons, Job.writtenAll_nil, String.append_empty] at hrun
  · intro jobs hjobs
    refine ⟨acc_of_runs (runs_start n jobs hjobs) rfl, ?_⟩
    intro w hrun
    have hsound := (sound_start n hjobs).of_runs hrun
    exact ⟨hsound, hsound.length_active_le, fun calls rest => hsound.balanced⟩

/-- An alias for a pointer to a generic type, which has that alias twice and a missing number as its
arguments. -/
def tangled : Naming where
  types :=
    [⟨⟨"m"⟩, "A", [], .alias (.pointer (.named 1))⟩,
      ⟨⟨"m"⟩, "G", [.named 0, .named 7, .named 0], .defined (.named 1)⟩]
  origins := .empty

theorem ends_and_restores_tangled :
    (∀ job ∈ [Job.type (.named 0)], job.isMark = false) ∧
    Acc (fun later earlier : Writer => earlier.step tangled = some later)
      (start [.type (.named 0)]) ∧
    -- inside both expansions, before the three arguments
    ∃ w rest, Runs tangled (start [.type (.named 0)]) w ∧
      w.todo = [.type (.named 0), .text ", ", .type (.named 7), .text ", ", .type (.named 0)] ++
        rest ∧
      w.active = [1, 0] ∧ w.out = "*m.G[" ∧ w.Sound tangled ∧
      Runs tangled w ⟨rest, [1, 0], "*m.G[<cycle: m.A>, <invalid type>, <cycle: m.A>"⟩ := by
  have hjobs : ∀ job ∈ [Job.type (.named 0)], job.isMark = false := by simp [Job.isMark]
  obtain ⟨-, -, -, hall⟩ := ends_and_restores tangled
  obtain ⟨hends, hmoments⟩ := hall _ hjobs
  obtain ⟨w, rest, hrun, htodo, hactive, hout⟩ :
      ∃ w rest, Runs tangled (start [.type (.named 0)]) w ∧
        w.todo = [.type (.named 0), .text ", ", .type (.named 7), .text ", ", .type (.named 0)] ++
          rest ∧
        w.active = [1, 0] ∧ w.out = "*m.G[" :=
    ⟨_, _, .head rfl (.head rfl (.head rfl (.head rfl (.head rfl (.head rfl (.head rfl (.head rfl
      (.head rfl .refl)))))))), rfl, rfl, rfl⟩
  obtain ⟨hsound, -, hbalanced⟩ := hmoments w hrun
  obtain ⟨-, hdone⟩ := hbalanced _ rest htodo (by simp [Job.isMark])
  rw [hactive, hout] at hdone
  exact ⟨hjobs, hends, w, rest, hrun, htodo, hactive, hout, hsound, hdone⟩

end Writer

end CallPolicy
