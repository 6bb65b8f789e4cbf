import CallPolicy.Json.Decoding
import Mathlib.Order.Lattice

/-!
# JSON values that can be read back

A reader refuses a value that opens too many arrays and objects at a time, and takes only numbers
that fit a 64-bit word.  A value is *readable* under a bound on what it opens if it stays within
both limits.  What is written from data holds texts only, and such a value, if it is readable, can
also be read ahead.

## Main statements

* `readable_ofMembers_iff`, `readable_array_iff` — a container is readable if what it holds is, with
  one container less to open.
* `fits_of_readable` — a readable value of texts can be read ahead.
* `fieldsOf_ofMembers`, `listOf_map` — what an object and a list are read as.
-/

namespace CallPolicy.Json

/-! ## How much is open at a time -/

mutual

/-- The largest number of arrays and objects that are open at a time. -/
def depth : Json → Nat
  | .null => 0
  | .bool _ => 0
  | .number _ => 0
  | .string _ => 0
  | .array items => itemsDepth items + 1
  | .object members => membersDepth members + 1

/-- The same for the items of an array. -/
def itemsDepth : List Json → Nat
  | [] => 0
  | item :: rest => max item.depth (itemsDepth rest)

/-- The same for the members of an object. -/
def membersDepth : Members → Nat
  | [] => 0
  | (_, value) :: rest => max value.depth (membersDepth rest)

end

theorem itemsDepth_le_iff {items : List Json} {n : Nat} :
    itemsDepth items ≤ n ↔ ∀ item ∈ items, item.depth ≤ n := by
  induction items with
  | nil => simp [itemsDepth]
  | cons item rest ih => simp [itemsDepth, ih]

theorem membersDepth_le_iff {members : Members} {n : Nat} :
    membersDepth members ≤ n ↔ ∀ m ∈ members, m.2.depth ≤ n := by
  induction members with
  | nil => simp [membersDepth]
  | cons m rest ih =>
    obtain ⟨name, value⟩ := m
    simp [membersDepth, ih]

/-! ## Words and texts -/

mutual

/-- The numbers and the strings in a value, names included, pass a test each. -/
def check (number : Number → Bool) (string : Literal → Bool) : Json → Bool
  | .null => true
  | .bool _ => true
  | .number value => number value
  | .string value => string value
  | .array items => checkItems number string items
  | .object members => checkMembers number string members

/-- The same for the items of an array. -/
def checkItems (number : Number → Bool) (string : Literal → Bool) : List Json → Bool
  | [] => true
  | item :: rest => item.check number string && checkItems number string rest

/-- The same for the members of an object. -/
def checkMembers (number : Number → Bool) (string : Literal → Bool) : Members → Bool
  | [] => true
  | (name, value) :: rest =>
    string name && value.check number string && checkMembers number string rest

end

theorem checkItems_iff {number : Number → Bool} {string : Literal → Bool} {items : List Json} :
    checkItems number string items = true ↔ ∀ item ∈ items, item.check number string = true := by
  induction items with
  | nil => simp [checkItems]
  | cons item rest ih => simp [checkItems, ih]

theorem checkMembers_iff {number : Number → Bool} {string : Literal → Bool} {members : Members} :
    checkMembers number string members = true ↔
      ∀ m ∈ members, string m.1 = true ∧ m.2.check number string = true := by
  induction members with
  | nil => simp [checkMembers]
  | cons m rest ih =>
    obtain ⟨name, value⟩ := m
    simp [checkMembers, ih, and_assoc]

/-- The number is a 64-bit word. -/
def Number.isWord : Number → Bool
  | .natural n => n ≤ Decimal.maxWord
  | .numeral _ => false

/-- A 64-bit word is in the range of double precision. -/
theorem inRange_of_isWord {number : Number} (h : number.isWord = true) : number.inRange = true := by
  cases number with
  | natural n => simp [Number.inRange, of_decide_eq_true h]
  | numeral form => cases h

/-- Every number in the value is a 64-bit word. -/
def HasWords (value : Json) : Prop :=
  value.check Number.isWord (fun _ => true) = true

/-- Every string and every name in the value is a text. -/
def HasTexts (value : Json) : Prop :=
  value.check (fun _ => true) Option.isSome = true

@[simp] theorem hasTexts_ofText (text : String) : (ofText text).HasTexts := rfl

@[simp] theorem hasTexts_ofNat (n : Nat) : (ofNat n).HasTexts := rfl

@[simp] theorem hasTexts_bool (value : Bool) : (Json.bool value).HasTexts := rfl

theorem hasWords_array_iff {items : List Json} :
    (Json.array items).HasWords ↔ ∀ item ∈ items, item.HasWords :=
  checkItems_iff

theorem hasWords_object_iff {members : Members} :
    (Json.object members).HasWords ↔ ∀ m ∈ members, m.2.HasWords := by
  refine checkMembers_iff.trans ?_
  simp [HasWords]

theorem hasTexts_array_iff {items : List Json} :
    (Json.array items).HasTexts ↔ ∀ item ∈ items, item.HasTexts :=
  checkItems_iff

theorem hasTexts_object_iff {members : Members} :
    (Json.object members).HasTexts ↔ ∀ m ∈ members, m.1.isSome = true ∧ m.2.HasTexts :=
  checkMembers_iff

theorem hasTexts_ofMembers_iff {members : List (String × Json)} :
    (ofMembers members).HasTexts ↔ ∀ m ∈ members, m.2.HasTexts := by
  rw [ofMembers, hasTexts_object_iff, List.forall_mem_map]
  simp

/-! ## Readable values -/

/-- The value can be read by a reader that may open `bound` arrays and objects at a time. -/
structure Readable (bound : Nat) (value : Json) : Prop where
  depth_le : value.depth ≤ bound
  hasWords : value.HasWords

/-- A list is readable if its items are, with one container less to open. -/
theorem readable_array_iff {bound : Nat} {items : List Json} :
    Readable bound (.array items) ↔
      ∃ inner, bound = inner + 1 ∧ ∀ item ∈ items, item.Readable inner := by
  constructor
  · rintro ⟨hdepth, hwords⟩
    rw [depth] at hdepth
    obtain ⟨inner, rfl⟩ := Nat.exists_eq_add_of_le' (Nat.le_of_add_left_le hdepth)
    refine ⟨inner, rfl, fun item hitem => ⟨?_, ?_⟩⟩
    · exact itemsDepth_le_iff.1 (Nat.le_of_add_le_add_right hdepth) item hitem
    · exact hasWords_array_iff.1 hwords item hitem
  · rintro ⟨inner, rfl, hitems⟩
    refine ⟨?_, hasWords_array_iff.2 fun item hitem => (hitems item hitem).hasWords⟩
    rw [depth]
    exact Nat.succ_le_succ (itemsDepth_le_iff.2 fun item hitem => (hitems item hitem).depth_le)

/-- An object is readable if its members are, with one container less to open. -/
theorem readable_object_iff {bound : Nat} {members : Members} :
    Readable bound (.object members) ↔
      ∃ inner, bound = inner + 1 ∧ ∀ m ∈ members, m.2.Readable inner := by
  constructor
  · rintro ⟨hdepth, hmembers⟩
    rw [depth] at hdepth
    obtain ⟨inner, rfl⟩ := Nat.exists_eq_add_of_le' (Nat.le_of_add_left_le hdepth)
    refine ⟨inner, rfl, fun m hm => ⟨?_, hasWords_object_iff.1 hmembers m hm⟩⟩
    exact membersDepth_le_iff.1 (Nat.le_of_add_le_add_right hdepth) m hm
  · rintro ⟨inner, rfl, hmembers⟩
    refine ⟨?_, hasWords_object_iff.2 fun m hm => (hmembers m hm).hasWords⟩
    rw [depth]
    exact Nat.succ_le_succ (membersDepth_le_iff.2 fun m hm => (hmembers m hm).depth_le)

theorem readable_ofMembers_iff {bound : Nat} {members : List (String × Json)} :
    Readable bound (ofMembers members) ↔
      ∃ inner, bound = inner + 1 ∧ ∀ m ∈ members, m.2.Readable inner := by
  rw [ofMembers, readable_object_iff]
  simp only [List.forall_mem_map]

/-- A readable number is read as itself. -/
theorem Readable.nat? {bound n : Nat} (h : Readable bound (ofNat n)) :
    (ofNat n).nat? = some n := by
  have hword : n ≤ Decimal.maxWord := of_decide_eq_true h.hasWords
  exact if_pos hword

/-- **A readable value of texts can be read ahead.** -/
theorem fits_of_readable : ∀ {bound : Nat} {value : Json}, value.Readable bound → value.HasTexts →
    fits bound value = true
  | _, .null, _, _ => by rw [fits]
  | _, .bool _, _, _ => by rw [fits]
  | _, .number _, h, _ => by rw [fits]; exact inRange_of_isWord h.hasWords
  | _, .string _, _, htexts => by rw [fits]; exact htexts
  | 0, .array _, h, _ => by
    obtain ⟨_, hinner, -⟩ := readable_array_iff.1 h
    cases hinner
  | 0, .object _, h, _ => by
    obtain ⟨_, hinner, -⟩ := readable_object_iff.1 h
    cases hinner
  | bound + 1, .array items, h, htexts => by
    obtain ⟨_, hinner, hitems⟩ := readable_array_iff.1 h
    cases hinner
    rw [hasTexts_array_iff] at htexts
    rw [fits, List.all_eq_true]
    exact fun item hitem => fits_of_readable (hitems item hitem) (htexts item hitem)
  | bound + 1, .object members, h, htexts => by
    obtain ⟨_, hinner, hmembers⟩ := readable_object_iff.1 h
    cases hinner
    rw [hasTexts_object_iff] at htexts
    rw [fits, List.all_eq_true]
    intro m hm
    obtain ⟨hname, hvalue⟩ := htexts m hm
    rw [hname, fits_of_readable (hmembers m hm) hvalue]
    rfl

/-! ## Reading back -/

@[simp] theorem text?_ofText (text : String) : (ofText text).text? = some text := rfl

/-- Members as they are written, with texts for names. -/
def written (members : List (String × Json)) : Members :=
  members.map fun m => (some m.1, m.2)

theorem ofMembers_eq (members : List (String × Json)) :
    ofMembers members = .object (written members) := rfl

theorem namedMembers?_written (members : List (String × Json)) :
    namedMembers? (written members) = some (written members) := by
  simp [namedMembers?, written]

/-- The fields of an object that was written are the members it was written from. -/
theorem fieldsOf_ofMembers (names : List String) (members : List (String × Json)) :
    fieldsOf names (ofMembers members) = some (written members) :=
  namedMembers?_written members

@[simp] theorem valuesOf_written_nil (name : String) : valuesOf name (written []) = [] := rfl

@[simp] theorem valuesOf_written_cons (name key : String) (value : Json)
    (rest : List (String × Json)) :
    valuesOf name (written ((key, value) :: rest)) =
      if key = name then value :: valuesOf name (written rest)
      else valuesOf name (written rest) := by
  by_cases h : key = name <;> simp [valuesOf, written, h]

@[simp] theorem valuesOf_written_append (name : String) (ms ns : List (String × Json)) :
    valuesOf name (written (ms ++ ns)) =
      valuesOf name (written ms) ++ valuesOf name (written ns) := by
  simp [valuesOf, written]

theorem valuesOf_written_eq_nil {name : String} {members : List (String × Json)}
    (h : ∀ m ∈ members, m.1 ≠ name) : valuesOf name (written members) = [] := by
  simpa [valuesOf, written] using h

/-- A list is read back if its items are. -/
theorem listOf_map {α : Type} {encode : α → Json} {decode : Nat → Json → Option α} {bound : Nat}
    {xs : List α}
    (h : ∀ x ∈ xs, ∀ inner, (encode x).Readable inner → decode inner (encode x) = some x)
    (hxs : (Json.array (xs.map encode)).Readable bound) :
    listOf decode bound (.array (xs.map encode)) = some xs := by
  obtain ⟨inner, rfl, hitems⟩ := readable_array_iff.1 hxs
  rw [List.forall_mem_map] at hitems
  rw [listOf]
  clear hxs
  induction xs with
  | nil => rfl
  | cons x rest ih =>
    rw [List.forall_mem_cons] at h hitems
    simp [List.mapM_cons, h.1 inner hitems.1, ih h.2 hitems.2]

end CallPolicy.Json
