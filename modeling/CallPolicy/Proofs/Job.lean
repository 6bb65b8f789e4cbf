import CallPolicy.Proofs.Naming

/-!
# Jobs

Writing a type, a signature or a declared type is a *job*.  Most jobs consist of smaller ones, to be
done one after the other; what is left in the end are texts to be written as they are, numbers of
declared types to be looked up, and the marks where the expansion of a number ends.  A job has the
text that rendering gives it, and the numbers that collecting gives it.  Both are divided among the
jobs that it consists of.

## Main statements

* `Job.flatMap_ids_parts` — the parts of a job have its numbers, in order.
* `Job.writtenAll_parts` — the texts of the parts make up the text of the job.
* `Job.forall_mem_ofSignature` — what holds of the types in a signature holds of its jobs.
-/

namespace CallPolicy

/-- A job of the writer. -/
inductive Job where
  /-- A text is written as it is. -/
  | text (s : String)
  /-- A type is written. -/
  | type (t : TypeExpr)
  /-- A channel is written. -/
  | chan (dir : ChanDir) (elem : TypeExpr)
  /-- A signature is written. -/
  | signature (s : Signature)
  /-- The declared type with the given number is written. -/
  | named (id : Nat)
  /-- A defined type is written by its name and its arguments. -/
  | defined (d : TypeDef)
  /-- The mark where the expansion of a number ends. -/
  | leave (id : Nat)

namespace Job

/-- The jobs of all items, with a text between neighbours. -/
def separated (sep : String) (items : List (List Job)) : List Job :=
  [text sep].intercalate items

/-- The items in square brackets, if there are any. -/
def inBrackets : List (List Job) → List Job
  | [] => []
  | items => text "[" :: (separated ", " items ++ [text "]"])

/-- A type parameter with its constraint. -/
def ofTypeParam (p : TypeParam) : List Job :=
  [text p.name, text " ", type p.constraint]

/-- The parameters; the last one of a variadic list shows what its slice holds. -/
def ofParams (variadic : Bool) : List Binding → List (List Job)
  | [] => []
  | [last] => [if variadic then [text "...", type last.type.spread] else [type last.type]]
  | b :: next :: rest => [type b.type] :: ofParams variadic (next :: rest)

/-- The results: nothing, one bare type, or several in parentheses. -/
def ofResults : List Binding → List Job
  | [] => []
  | [single] => [text " ", type single.type]
  | many => text " (" :: (separated ", " (many.map fun b => [type b.type]) ++ [text ")"])

/-- A signature, from the type parameters to the results. -/
def ofSignature (s : Signature) : List Job :=
  inBrackets (s.typeParams.map ofTypeParam) ++ (text "(" ::
    (separated ", " (ofParams s.variadic s.params) ++ (text ")" :: ofResults s.results)))

/-- A field of a struct, with its name if it has one. -/
def ofField (b : Binding) : List Job :=
  match b.name with
  | none => [type b.type]
  | some name => [text name, text " ", type b.type]

/-- A method of an interface. -/
def ofMethod (m : Method) : List Job :=
  [text m.name, signature m.signature]

/-- A channel, with its element in parentheses where they are needed. -/
def ofChan (dir : ChanDir) (elem : TypeExpr) : List Job :=
  if dir.encloses elem then [text dir.marker, text "(", type elem, text ")"]
  else [text dir.marker, type elem]

/-- A type, by its constructor. -/
def ofType : TypeExpr → List Job
  | .basic name => [text name]
  | .typeParam name => [text name]
  | .named id => [named id]
  | .pointer elem => [text "*", type elem]
  | .slice elem => [text "[]", type elem]
  | .array len elem => [text ("[" ++ Nat.repr len ++ "]"), type elem]
  | .map key value => [text "map[", type key, text "]", type value]
  | .chan dir elem => [chan dir elem]
  | .func s => [text "func", signature s]
  | .struct fields =>
    text "struct\x7b" :: (separated "; " (fields.map ofField) ++ [text "\x7d"])
  | .interface methods =>
    text "interface\x7b" :: (separated "; " (methods.map ofMethod) ++ [text "\x7d"])

/-- A defined type: its qualified name and its arguments. -/
def ofDefined (n : Naming) (d : TypeDef) : List Job :=
  text (n.qualified d.module d.name) :: inBrackets (d.args.map fun arg => [type arg])

/-- An entry of the table: an alias is written as its target. -/
def ofEntry (d : TypeDef) : Job :=
  match d.kind with
  | .alias target => type target
  | .defined _ => defined d

/-- The smaller jobs that a job consists of. -/
def parts (n : Naming) : Job → List Job
  | type t => ofType t
  | chan dir elem => ofChan dir elem
  | signature s => ofSignature s
  | defined d => ofDefined n d
  | text _ | named _ | leave _ => []

/-- The jobs of a symbol; only functions and methods are written. -/
def ofSymbol? (n : Naming) (s : Symbol) : Option (List Job) :=
  match s.kind with
  | .function sig => some [text "func ", text (n.qualified s.module s.name), signature sig]
  | .method receiver sig =>
    some [text "func (", type receiver.type, text ").", text s.name, signature sig]
  | .variable | .constant | .typeName => none

/-- The job is the mark where an expansion ends. -/
def isMark : Job → Bool
  | leave _ => true
  | _ => false

/-- The job consists of smaller ones. -/
def isCompound : Job → Bool
  | type _ | chan _ _ | signature _ | defined _ => true
  | text _ | named _ | leave _ => false

/-- The table numbers that a job is about to write. -/
def ids : Job → List Nat
  | text _ | leave _ => []
  | type t => t.ids
  | chan _ elem => elem.ids
  | signature s => s.ids
  | named id => [id]
  | defined d => d.args.flatMap TypeExpr.ids

/-- The text of a job, where `refer` writes declared types. -/
def written (n : Naming) (refer : Nat → String) : Job → String
  | text s => s
  | type t => t.render refer
  | chan dir elem => (TypeExpr.chan dir elem).render refer
  | signature s => s.render refer
  | named id => refer id
  | defined d =>
    n.qualified d.module d.name ++
      Signature.typeParamsText (d.args.map fun arg => arg.render refer)
  | leave _ => ""

/-- The texts of jobs, one after the other. -/
def writtenAll (n : Naming) (refer : Nat → String) (jobs : List Job) : String :=
  String.join (jobs.map (written n refer))

/-! ## What a job consists of -/

section Lists

variable (n : Naming) (refer : Nat → String)

@[simp]
theorem writtenAll_nil : writtenAll n refer [] = "" := rfl

@[simp]
theorem writtenAll_cons (job : Job) (jobs : List Job) :
    writtenAll n refer (job :: jobs) = job.written n refer ++ writtenAll n refer jobs :=
  String.join_cons

@[simp]
theorem writtenAll_append (jobs more : List Job) :
    writtenAll n refer (jobs ++ more) = writtenAll n refer jobs ++ writtenAll n refer more := by
  rw [writtenAll, List.map_append, String.join_append]
  rfl

/-- What holds of a separator and of the jobs of each item holds of all jobs. -/
theorem forall_mem_separated {P : Job → Prop} {sep : String} {items : List (List Job)}
    (hsep : P (text sep)) (hitems : ∀ item ∈ items, ∀ job ∈ item, P job) :
    ∀ job ∈ separated sep items, P job := by
  unfold separated
  induction items with
  | nil => simp
  | cons item rest ih =>
    rw [List.forall_mem_cons] at hitems
    cases rest with
    | nil => simpa using hitems.1
    | cons next rest =>
      rw [List.intercalate_cons_cons, List.append_assoc, List.forall_mem_append,
        List.forall_mem_append, List.forall_mem_singleton]
      exact ⟨hitems.1, hsep, ih hitems.2⟩

theorem flatMap_ids_separated (sep : String) (items : List (List Job)) :
    (separated sep items).flatMap ids = items.flatMap fun item => item.flatMap ids := by
  unfold separated
  induction items with
  | nil => rfl
  | cons item rest ih =>
    cases rest with
    | nil => simp
    | cons next rest =>
      rw [List.intercalate_cons_cons, List.flatMap_append, List.flatMap_append, ih]
      simp [ids]

theorem writtenAll_separated (sep : String) (items : List (List Job)) :
    writtenAll n refer (separated sep items) =
      sep.intercalate (items.map (writtenAll n refer)) := by
  unfold separated
  induction items with
  | nil => rfl
  | cons item rest ih =>
    cases rest with
    | nil => simp
    | cons next rest =>
      rw [List.intercalate_cons_cons, writtenAll_append, writtenAll_append, ih]
      simp [written, String.intercalate_cons_cons]

theorem inBrackets_cons (item : List Job) (rest : List (List Job)) :
    inBrackets (item :: rest) = text "[" :: (separated ", " (item :: rest) ++ [text "]"]) := rfl

theorem forall_mem_inBrackets {P : Job → Prop} {items : List (List Job)}
    (htext : ∀ s, P (text s)) (hitems : ∀ item ∈ items, ∀ job ∈ item, P job) :
    ∀ job ∈ inBrackets items, P job := by
  cases items with
  | nil => simp [inBrackets]
  | cons item rest =>
    rw [inBrackets_cons, List.forall_mem_cons, List.forall_mem_append, List.forall_mem_singleton]
    exact ⟨htext _, forall_mem_separated (htext _) hitems, htext _⟩

theorem flatMap_ids_inBrackets (items : List (List Job)) :
    (inBrackets items).flatMap ids = items.flatMap fun item => item.flatMap ids := by
  cases items with
  | nil => rfl
  | cons item rest =>
    rw [inBrackets_cons, List.flatMap_cons, List.flatMap_append, flatMap_ids_separated]
    simp [ids]

theorem writtenAll_inBrackets (items : List (List Job)) :
    writtenAll n refer (inBrackets items) =
      Signature.typeParamsText (items.map (writtenAll n refer)) := by
  cases items with
  | nil => rfl
  | cons item rest =>
    rw [inBrackets_cons, writtenAll_cons, writtenAll_append, writtenAll_separated]
    simp [written, Signature.typeParamsText, String.append_assoc]

end Lists

/-! ## Signatures -/

section Signatures

variable {P : Job → Prop}

theorem forall_mem_ofParams {variadic : Bool} {bs : List Binding} (htext : ∀ s, P (text s))
    (hparams : ∀ b ∈ bs, P (type b.type) ∧ P (type b.type.spread)) :
    ∀ item ∈ ofParams variadic bs, ∀ job ∈ item, P job := by
  fun_induction ofParams variadic bs with
  | case1 => simp
  | case2 last =>
    obtain ⟨hlast, hspread⟩ := hparams last List.mem_cons_self
    cases variadic <;> simp [hlast, hspread, htext]
  | case3 b next rest ih =>
    rw [List.forall_mem_cons] at hparams
    rw [List.forall_mem_cons, List.forall_mem_singleton]
    exact ⟨hparams.1.1, ih hparams.2⟩

theorem forall_mem_ofResults {bs : List Binding} (htext : ∀ s, P (text s))
    (hresults : ∀ b ∈ bs, P (type b.type)) : ∀ job ∈ ofResults bs, P job := by
  fun_cases ofResults bs with
  | case1 => simp
  | case2 single => simpa [htext] using hresults
  | case3 many =>
    rw [List.forall_mem_cons, List.forall_mem_append, List.forall_mem_singleton]
    refine ⟨htext _, forall_mem_separated (htext _) ?_, htext _⟩
    rw [List.forall_mem_map]
    intro b hb
    rw [List.forall_mem_singleton]
    exact hresults b hb

/-- What holds of texts and of the parts of a signature, as they are and spread, holds of all its
jobs. -/
theorem forall_mem_ofSignature {s : Signature} (htext : ∀ s, P (text s))
    (hparts : ∀ t ∈ s.parts, P (type t) ∧ P (type t.spread)) :
    ∀ job ∈ ofSignature s, P job := by
  rw [ofSignature, List.forall_mem_append, List.forall_mem_cons, List.forall_mem_append,
    List.forall_mem_cons]
  refine ⟨forall_mem_inBrackets htext ?_, htext _, forall_mem_separated (htext _) ?_, htext _, ?_⟩
  · rw [List.forall_mem_map]
    intro p hp
    have hconstraint := (hparts _ (Signature.constraint_mem_parts hp)).1
    simp [ofTypeParam, htext, hconstraint]
  · exact forall_mem_ofParams htext fun b hb => hparts _ (Signature.param_mem_parts hb)
  · exact forall_mem_ofResults htext fun b hb => (hparts _ (Signature.result_mem_parts hb)).1

theorem flatMap_ids_ofParams (variadic : Bool) (bs : List Binding) :
    ((ofParams variadic bs).flatMap fun item => item.flatMap ids) = Binding.listIds bs := by
  rw [Binding.listIds_eq]
  fun_induction ofParams variadic bs with
  | case1 => rfl
  | case2 last => cases variadic <;> simp [ids, TypeExpr.ids_spread]
  | case3 b next rest ih =>
    rw [List.flatMap_cons, ih]
    simp [ids]

theorem flatMap_ids_ofResults (bs : List Binding) :
    (ofResults bs).flatMap ids = Binding.listIds bs := by
  rw [Binding.listIds_eq]
  fun_cases ofResults bs with
  | case1 => rfl
  | case2 single => simp [ids]
  | case3 many =>
    rw [List.flatMap_cons, List.flatMap_append, flatMap_ids_separated, List.flatMap_map]
    simp [ids, List.flatMap_map]

theorem flatMap_ids_ofSignature (s : Signature) : (ofSignature s).flatMap ids = s.ids := by
  obtain ⟨typeParams, params, results, variadic⟩ := s
  rw [ofSignature, Signature.ids, List.flatMap_append, List.flatMap_cons, List.flatMap_append,
    List.flatMap_cons, flatMap_ids_inBrackets, flatMap_ids_separated, flatMap_ids_ofParams,
    flatMap_ids_ofResults, TypeParam.listIds_eq, List.flatMap_map, List.flatMap_map]
  simp [ids, ofTypeParam]

theorem writtenAll_ofParams (n : Naming) (refer : Nat → String) (variadic : Bool)
    (bs : List Binding) :
    (ofParams variadic bs).map (writtenAll n refer) = Binding.paramTexts refer variadic bs := by
  fun_induction ofParams variadic bs with
  | case1 => rfl
  | case2 last =>
    rw [Binding.paramTexts_singleton, List.map_singleton, Signature.lastText]
    cases variadic <;> simp [written]
  | case3 b next rest ih =>
    obtain ⟨name, t⟩ := b
    rw [List.map_cons, ih, Binding.paramTexts]
    simp [written]

theorem writtenAll_ofResults (n : Naming) (refer : Nat → String) (bs : List Binding) :
    writtenAll n refer (ofResults bs) =
      Signature.resultsText (Binding.typeTexts refer bs) := by
  rw [Binding.typeTexts_eq]
  match bs with
  | [] => rfl
  | [single] => simp [ofResults, written, Signature.resultsText]
  | b :: next :: rest =>
    rw [ofResults, writtenAll_cons, writtenAll_append, writtenAll_separated]
    · simp [written, Signature.resultsText, String.append_assoc, Function.comp_def]
    · simp
    · simp

theorem writtenAll_ofSignature (n : Naming) (refer : Nat → String) (s : Signature) :
    writtenAll n refer (ofSignature s) = s.render refer := by
  obtain ⟨typeParams, params, results, variadic⟩ := s
  have htypeParams : (typeParams.map ofTypeParam).map (writtenAll n refer) =
      TypeParam.texts refer typeParams := by
    rw [TypeParam.texts_eq, List.map_map]
    refine List.map_congr_left ?_
    intro p _
    simp [ofTypeParam, written, String.append_assoc]
  rw [ofSignature, Signature.render, writtenAll_append, writtenAll_cons, writtenAll_append,
    writtenAll_cons, writtenAll_inBrackets, writtenAll_separated, writtenAll_ofParams,
    writtenAll_ofResults, htypeParams]
  simp [written, String.append_assoc]

end Signatures

/-! ## Types and entries -/

/-- The jobs that a job consists of have its numbers, in order. -/
theorem flatMap_ids_parts (n : Naming) {job : Job} (hjob : job.isCompound = true) :
    (job.parts n).flatMap ids = job.ids := by
  cases job with
  | text s => cases hjob
  | leave id => cases hjob
  | named id => cases hjob
  | chan dir elem =>
    rw [parts, ofChan]
    split <;> simp [ids]
  | signature s => exact flatMap_ids_ofSignature s
  | defined d =>
    rw [parts, ofDefined, List.flatMap_cons, flatMap_ids_inBrackets, List.flatMap_map]
    simp [ids]
  | type t =>
    cases t with
    | struct fields =>
      have hfield : ∀ b, (ofField b).flatMap ids = b.type.ids := by
        rintro ⟨_ | name, t⟩ <;> simp [ofField, ids]
      rw [parts, ofType, List.flatMap_cons, List.flatMap_append, flatMap_ids_separated, ids, ids,
        TypeExpr.ids, Binding.listIds_eq, List.flatMap_map, List.flatMap_map]
      simp [hfield, ids]
    | interface methods =>
      rw [parts, ofType, List.flatMap_cons, List.flatMap_append, flatMap_ids_separated, ids, ids,
        TypeExpr.ids, Method.listIds_eq, List.flatMap_map]
      simp [ofMethod, ids]
    | _ => simp [parts, ofType, ids, TypeExpr.ids]

/-- The texts of the jobs that a job consists of make up its text. -/
theorem writtenAll_parts (n : Naming) (refer : Nat → String) {job : Job}
    (hjob : job.isCompound = true) : writtenAll n refer (job.parts n) = job.written n refer := by
  cases job with
  | text s => cases hjob
  | leave id => cases hjob
  | named id => cases hjob
  | chan dir elem =>
    rw [parts, ofChan, written, TypeExpr.render]
    split <;> simp [written, String.append_assoc]
  | signature s => exact writtenAll_ofSignature n refer s
  | defined d =>
    rw [parts, ofDefined, writtenAll_cons, writtenAll_inBrackets, List.map_map]
    simp [written, Function.comp_def]
  | type t =>
    cases t with
    | struct fields =>
      have hfield : ∀ b, writtenAll n refer (ofField b) =
          Binding.fieldText b.name (b.type.render refer) := by
        rintro ⟨_ | name, t⟩ <;> simp [ofField, written, Binding.fieldText, String.append_assoc]
      rw [parts, ofType, written, TypeExpr.render, Binding.fieldTexts_eq, writtenAll_cons,
        writtenAll_append, writtenAll_separated, List.map_map]
      simp [written, Function.comp_def, hfield, String.append_assoc]
    | interface methods =>
      rw [parts, ofType, written, TypeExpr.render, Method.texts_eq, writtenAll_cons,
        writtenAll_append, writtenAll_separated, List.map_map]
      simp [written, ofMethod, Function.comp_def, String.append_assoc]
    | _ => simp [parts, ofType, written, TypeExpr.render, String.append_assoc]

theorem isMark_of_isCompound {job : Job} (h : job.isCompound = true) : job.isMark = false := by
  cases job with
  | leave _ => cases h
  | _ => rfl

/-- No mark is among the jobs that a job consists of. -/
theorem isMark_of_mem_parts (n : Naming) (job : Job) :
    ∀ part ∈ job.parts n, part.isMark = false := by
  have htext : ∀ s, (text s).isMark = false := fun _ => rfl
  cases job with
  | text s => simp [parts]
  | leave id => simp [parts]
  | named id => simp [parts]
  | chan dir elem =>
    rw [parts, ofChan]
    split <;> simp [isMark]
  | signature s => exact forall_mem_ofSignature htext fun _ _ => ⟨rfl, rfl⟩
  | defined d =>
    rw [parts, ofDefined, List.forall_mem_cons]
    refine ⟨rfl, forall_mem_inBrackets htext ?_⟩
    simp [isMark]
  | type t =>
    cases t with
    | struct fields =>
      rw [parts, ofType, List.forall_mem_cons, List.forall_mem_append, List.forall_mem_singleton]
      refine ⟨rfl, forall_mem_separated rfl ?_, rfl⟩
      rw [List.forall_mem_map]
      rintro ⟨_ | name, t⟩ _ <;> simp [ofField, isMark]
    | interface methods =>
      rw [parts, ofType, List.forall_mem_cons, List.forall_mem_append, List.forall_mem_singleton]
      refine ⟨rfl, forall_mem_separated rfl ?_, rfl⟩
      simp [ofMethod, isMark]
    | _ => simp [parts, ofType, isMark]

/-- The job of an entry is about the numbers that its text shows. -/
theorem ids_ofEntry (d : TypeDef) : (ofEntry d).ids = d.shownIds := by
  unfold ofEntry TypeDef.shownIds
  cases d.kind <;> rfl

theorem isMark_ofEntry (d : TypeDef) : (ofEntry d).isMark = false := by
  unfold ofEntry
  cases d.kind <;> rfl

theorem written_ofEntry (n : Naming) (refer : Nat → String) (d : TypeDef) :
    (ofEntry d).written n refer = n.entryText refer d := by
  unfold ofEntry Naming.entryText
  cases d.kind <;> rfl

end Job

end CallPolicy
