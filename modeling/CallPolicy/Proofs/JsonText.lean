import CallPolicy.Json.Parser
import CallPolicy.Json.Printer
import CallPolicy.Proofs.Delimited
import CallPolicy.Proofs.JsonValue
import Mathlib.Data.List.Basic
import Mathlib.Data.List.TakeDrop

/-!
# JSON text is read back

A value that is printed with indentation and then read is the value again.  What a reader sees is
one long text, so each part is read back in front of whatever follows it; only a number needs that
no digit, point or exponent follows, and after a printed number there is a comma, a line feed or
nothing.

## Termination

The reader works under a bound on the number of its steps.  Twice the length of a printed value
covers the steps that it takes to read it.

## Main statements

* `readString_chars`, `readNumber_toDigits` — strings and natural numbers are read back.
* `textReadsBack` — every value whose numbers are 64-bit words is read back.
* `parse?_pretty` — a printed text is read as the value it was printed from.
-/

namespace CallPolicy.Json

/-! ## Strings -/

/-- The piece that a character of a string is written as. -/
def pieceOf (c : Char) : Piece :=
  if c < ' ' ∧ c ∉ ['\x08', '\x0c', '\n', '\r', '\t'] then .unit c.toNat else .char c

/-- The two digits of a character below the space give its number. -/
theorem hexUnit?_of_lt (n : Nat) (h : n < 32) :
    hexUnit? '0' '0' (Nat.digitChar (n / 16)) (Nat.digitChar (n % 16)) = some n := by
  have hall : ∀ m ∈ List.range 32,
      hexUnit? '0' '0' (Nat.digitChar (m / 16)) (Nat.digitChar (m % 16)) = some m := by decide
  exact hall n (List.mem_range.2 h)

/-- A letter after a backslash is read as the character it stands for. -/
theorem readPieces_unescape {letter c : Char} (h : unescape? letter = some c) (hu : letter ≠ 'u')
    (text : List Char) :
    readPieces ('\\' :: letter :: text) =
      (readPieces text).map fun (pieces, rest) => (.char c :: pieces, rest) := by
  rw [readPieces, h]
  · cases readPieces text <;> rfl
  · exact fun _ _ _ _ _ hletter => absurd hletter hu

/-- A character that needs no backslash is read as itself. -/
theorem readPieces_cons {c : Char} (hquote : c ≠ '"') (hbackslash : c ≠ '\\') (hc : ¬c < ' ')
    (text : List Char) :
    readPieces (c :: text) =
      (readPieces text).map fun (pieces, rest) => (.char c :: pieces, rest) := by
  rw [readPieces, if_neg hc]
  · cases readPieces text <;> rfl
  · exact hquote
  · exact fun _ _ _ _ _ h => absurd h hbackslash
  · exact fun _ _ h => absurd h hbackslash

/-- A character is read as its piece. -/
theorem readPieces_escapeChar (c : Char) (text : List Char) :
    readPieces (escapeChar c ++ text) =
      (readPieces text).map fun (pieces, rest) => (pieceOf c :: pieces, rest) := by
  unfold escapeChar
  -- seven characters have a letter of their own
  iterate 7
    split
    next h => subst h; exact readPieces_unescape rfl (by decide) text
  next hquote hbackslash hb hf hn hr ht =>
    by_cases hc : c < ' '
    · have hpiece : pieceOf c = .unit c.toNat := if_pos ⟨hc, by simp [hb, hf, hn, hr, ht]⟩
      rw [if_pos hc, hpiece]
      simp only [List.cons_append, List.nil_append]
      rw [readPieces, hexUnit?_of_lt c.toNat hc]
      cases readPieces text <;> rfl
    · have hpiece : pieceOf c = .char c := if_neg fun h => hc h.1
      rw [if_neg hc, hpiece]
      exact readPieces_cons hquote hbackslash hc text

/-- A number that is no half of a surrogate pair stands for its character. -/
theorem joinPieces_unit {n : Nat} (hn : n < 0xD800) (pieces : List Piece) :
    joinPieces (.unit n :: pieces) = (joinPieces pieces).map (Char.ofNat n :: ·) := by
  have hhigh : isHighHalf n = false := by
    simp only [isHighHalf, Bool.and_eq_false_iff, decide_eq_false_iff_not]
    omega
  have hlow : isLowHalf n = false := by
    simp only [isLowHalf, Bool.and_eq_false_iff, decide_eq_false_iff_not]
    omega
  match pieces with
  | [] => simp [joinPieces, hhigh, hlow]
  | .char c :: rest => simp [joinPieces, hhigh, hlow]
  | .unit low :: rest => simp [joinPieces, hhigh, hlow]

/-- The pieces of a text make the text. -/
theorem joinPieces_map_pieceOf (text : List Char) : joinPieces (text.map pieceOf) = some text := by
  induction text with
  | nil => rfl
  | cons c rest ih =>
    rw [List.map_cons, pieceOf]
    split
    next h =>
      have hc : c.toNat < 32 := h.1
      rw [joinPieces_unit (by omega), ih, Char.ofNat_toNat]
      rfl
    next h =>
      rw [joinPieces, ih]
      rfl

/-- The characters of a string after its opening quote. -/
def Literal.chars : Literal → List Char
  | some text => text.toList.flatMap escapeChar ++ ['"']
  | none => ['\\', 'u', 'd', '8', '0', '0', '"']

theorem Literal.toList_render (literal : Literal) :
    literal.render.toList = '"' :: literal.chars := by
  cases literal with
  | none => rfl
  | some text => simp [Literal.render, Literal.chars]

theorem readPieces_escaped (text rest : List Char) :
    readPieces (text.flatMap escapeChar ++ '"' :: rest) = some (text.map pieceOf, rest) := by
  induction text with
  | nil => rfl
  | cons c text ih =>
    rw [List.flatMap_cons, List.append_assoc, readPieces_escapeChar, ih]
    rfl

/-- **A string is read back.** -/
theorem readString_chars (literal : Literal) (rest : List Char) :
    readString (literal.chars ++ rest) = some (literal, rest) := by
  cases literal with
  | none => rfl
  | some text =>
    rw [Literal.chars, List.append_assoc, List.singleton_append, readString, readPieces_escaped]
    show some ((joinPieces _).map _, rest) = _
    rw [joinPieces_map_pieceOf, Option.map_some, String.ofList_toList]

/-! ## Numbers -/

/-- Nothing follows that a number could go on with. -/
def Ends (rest : List Char) : Prop :=
  ∀ c, rest.head? = some c → (c.isDigit || c == '.' || c == 'e' || c == 'E') = false

theorem isDigit_of_mem_toDigits {n : Nat} {c : Char} (h : c ∈ Nat.toDigits 10 n) :
    c.isDigit = true :=
  Nat.isDigit_of_mem_toDigits (by decide) (by decide) h

theorem exists_toDigits_eq (n : Nat) :
    ∃ c digits, Nat.toDigits 10 n = c :: digits ∧ c.isDigit = true := by
  have hne : Nat.toDigits 10 n ≠ [] := Nat.toDigits_ne_nil
  obtain ⟨c, digits, hdigits⟩ := List.exists_cons_of_ne_nil hne
  exact ⟨c, digits, hdigits, isDigit_of_mem_toDigits (n := n) (by simp [hdigits])⟩

theorem readDigits_toDigits (n : Nat) {rest : List Char} (hrest : Ends rest) :
    readDigits (Nat.toDigits 10 n ++ rest) = (Nat.toDigits 10 n, rest) := by
  have hnext : ∀ c, rest.head? = some c → c.isDigit = false := by
    intro c hc
    have := hrest c hc
    simp only [Bool.or_eq_false_iff] at this
    exact this.1.1.1
  obtain ⟨htake, hdrop⟩ := Text.span_run (fun c hc => isDigit_of_mem_toDigits (n := n) hc) hnext
  rw [readDigits, List.span_eq_takeWhile_dropWhile, htake, hdrop]

/-- Only the number zero begins with the digit zero. -/
theorem head?_toDigits_eq_zero {n : Nat} (h : (Nat.toDigits 10 n).head? = some '0') : n = 0 := by
  induction n using Nat.strongRecOn with
  | ind n ih =>
    by_cases hn : n < 10
    · have hall : ∀ m ∈ List.range 10, Nat.digitChar m = '0' → m = 0 := by decide
      rw [Nat.toDigits_of_lt_base hn] at h
      exact hall n (List.mem_range.2 hn) (by simpa using h)
    · rw [Nat.toDigits_of_base_le (by decide) (by omega),
        List.head?_append_of_ne_nil _ Nat.toDigits_ne_nil] at h
      have := ih (n / 10) (by omega) h
      omega

theorem readFraction_of_ends {rest : List Char} (hrest : Ends rest) :
    readFraction rest = some ([], rest) := by
  unfold readFraction
  split
  · have := hrest '.' rfl
    simp at this
  · rfl

theorem readExponent_of_ends {rest : List Char} (hrest : Ends rest) :
    readExponent rest = some (none, rest) := by
  unfold readExponent
  split
  next c rest =>
    have hc := hrest c rfl
    simp only [Bool.or_eq_false_iff, beq_eq_false_iff_ne] at hc
    simp [hc.1.2, hc.2]
  · rfl

/-- **A natural number is read back.** -/
theorem readNumber_toDigits (n : Nat) {rest : List Char} (hrest : Ends rest) :
    readNumber (Nat.toDigits 10 n ++ rest) = some (.natural n, rest) := by
  have hunsigned : readNumber (Nat.toDigits 10 n ++ rest) =
      readUnsigned false (Nat.toDigits 10 n ++ rest) := by
    obtain ⟨c, digits, hdigits, hc⟩ := exists_toDigits_eq n
    rw [hdigits, List.cons_append]
    unfold readNumber
    split
    next h =>
      injection h with hminus
      subst hminus
      cases hc
    · rfl
  -- a leading zero is refused, but zero alone has one digit
  have hlead : ¬((Nat.toDigits 10 n).head? = some '0' ∧ (Nat.toDigits 10 n).length ≠ 1) := by
    rintro ⟨hzero, hlength⟩
    rw [head?_toDigits_eq_zero hzero] at hlength
    exact hlength rfl
  have hvalue : Decimal.value (Nat.toDigits 10 n) = n := Nat.ofDigitChars_ten_toDigits
  rw [hunsigned, readUnsigned, readDigits_toDigits n hrest]
  simp [Nat.toDigits_ne_nil, hlead, readFraction_of_ends hrest, readExponent_of_ends hrest, hvalue]

/-! ## Blanks -/

/-- The text holds blanks only. -/
def Blanks (text : List Char) : Prop :=
  ∀ c ∈ text, isBlank c = true

section Blanks

variable {blanks : List Char} (hblanks : Blanks blanks)
include hblanks

theorem skipBlanks_append (text : List Char) : skipBlanks (blanks ++ text) = skipBlanks text :=
  List.dropWhile_append_of_pos hblanks

theorem readValue_append (bound : Nat) (text : List Char) :
    readValue bound (blanks ++ text) = readValue bound text := by
  cases bound with
  | zero => rfl
  | succ bound => rw [readValue, readValue, skipBlanks_append hblanks]

theorem readItems_append (bound : Nat) (text : List Char) :
    readItems bound (blanks ++ text) = readItems bound text := by
  cases bound with
  | zero => rfl
  | succ bound => rw [readItems, readItems, readValue_append hblanks]

theorem readMembers_append (bound : Nat) (text : List Char) :
    readMembers bound (blanks ++ text) = readMembers bound text := by
  cases bound with
  | zero => rfl
  | succ bound => rw [readMembers, readMembers, skipBlanks_append hblanks]

/-- No number goes on with a blank. -/
theorem ends_append {rest : List Char} (hrest : Ends rest) : Ends (blanks ++ rest) := by
  cases blanks with
  | nil => exact hrest
  | cons c text =>
    intro d hd
    have hcd : c = d := by simpa using hd
    have hblank := hblanks c List.mem_cons_self
    rw [← hcd]
    simp only [isBlank, Bool.or_eq_true, decide_eq_true_eq] at hblank
    rcases hblank with ((rfl | rfl) | rfl) | rfl <;> rfl

end Blanks

theorem skipBlanks_cons {c : Char} (hc : isBlank c = false) (text : List Char) :
    skipBlanks (c :: text) = c :: text := by
  simp [skipBlanks, hc]

theorem ends_cons {c : Char}
    (hc : (c.isDigit || c == '.' || c == 'e' || c == 'E') = false) (text : List Char) :
    Ends (c :: text) :=
  Text.head?_cons_eq_false hc text

/-! ## Texts of values -/

/-- The characters of a value's pretty form. -/
def prettyChars (level : Nat) (value : Json) : List Char :=
  (pretty level value).toList

/-- The characters that begin a line. -/
def lineChars (level : Nat) : List Char :=
  '\n' :: List.replicate (2 * level) ' '

/-- The characters of a member. -/
def memberChars (level : Nat) (m : Literal × Json) : List Char :=
  '"' :: (m.1.chars ++ ':' :: ' ' :: prettyChars level m.2)

/-- The characters of texts, one on each line. -/
def linesOf (level : Nat) (texts : List (List Char)) : List Char :=
  (',' :: lineChars level).intercalate texts

theorem blanks_lineChars (level : Nat) : Blanks (lineChars level) := by
  intro c hc
  rcases List.mem_cons.1 hc with rfl | hc
  · rfl
  · rw [List.eq_of_mem_replicate hc]
    rfl

theorem linesOf_singleton (level : Nat) (text : List Char) : linesOf level [text] = text :=
  List.intercalate_singleton

theorem linesOf_cons_cons (level : Nat) (text next : List Char) (texts : List (List Char)) :
    linesOf level (text :: next :: texts) =
      text ++ ',' :: (lineChars level ++ linesOf level (next :: texts)) := by
  rw [linesOf, List.intercalate_cons_of_ne_nil (List.cons_ne_nil _ _), List.append_assoc]
  rfl

theorem prettyItems_eq (level : Nat) (items : List Json) :
    prettyItems level items = items.map (pretty level) := by
  induction items with
  | nil => rfl
  | cons item rest ih => rw [prettyItems, ih, List.map_cons]

theorem prettyMembers_eq (level : Nat) (members : Members) :
    prettyMembers level members = members.map fun m => m.1.render ++ ": " ++ pretty level m.2 := by
  induction members with
  | nil => rfl
  | cons m rest ih =>
    obtain ⟨name, value⟩ := m
    rw [prettyMembers, ih, List.map_cons]

theorem toList_newLine (level : Nat) : (newLine level).toList = lineChars level := by
  simp [newLine, lineChars]

theorem prettyChars_array (level : Nat) (item : Json) (rest : List Json) :
    prettyChars level (.array (item :: rest)) =
      '[' :: (lineChars (level + 1) ++
        (linesOf (level + 1) ((item :: rest).map (prettyChars (level + 1))) ++
          (lineChars level ++ [']']))) := by
  simp only [prettyChars, pretty, prettyItems_eq, String.toList_append, String.toList_intercalate,
    toList_newLine, linesOf, List.map_map, List.append_assoc]
  rfl

theorem prettyChars_object (level : Nat) (m : Literal × Json) (rest : Members) :
    prettyChars level (.object (m :: rest)) =
      '\x7b' :: (lineChars (level + 1) ++
        (linesOf (level + 1) ((m :: rest).map (memberChars (level + 1))) ++
          (lineChars level ++ ['\x7d']))) := by
  have hmember : String.toList ∘ (fun m : Literal × Json =>
      m.1.render ++ ": " ++ pretty (level + 1) m.2) = memberChars (level + 1) := by
    funext m
    simp [memberChars, prettyChars, Literal.toList_render]
  simp only [prettyChars, pretty, prettyMembers_eq, String.toList_append,
    String.toList_intercalate, toList_newLine, linesOf, List.map_map, List.append_assoc, hmember]
  rfl

/-! ## Values -/

/-- The printed value is read back, whatever follows that does not go on with it. -/
def TextReadsBack (value : Json) : Prop :=
  ∀ level bound rest, 2 * (prettyChars level value).length ≤ bound → Ends rest →
    readValue bound (prettyChars level value ++ rest) = some (value, rest)

/-- Items are read back, up to the bracket that closes them. -/
theorem readItems_of_textReadsBack {level : Nat} {blanks rest : List Char} (hblanks : Blanks blanks)
    {item : Json} {items : List Json} (h : ∀ i ∈ item :: items, i.TextReadsBack) {bound : Nat}
    (hbound : 2 * (linesOf level ((item :: items).map (prettyChars level))).length < bound) :
    readItems bound (linesOf level ((item :: items).map (prettyChars level)) ++
      (blanks ++ ']' :: rest)) = some (item :: items, rest) := by
  induction items generalizing item bound with
  | nil =>
    obtain ⟨bound, rfl⟩ := Nat.exists_eq_succ_of_ne_zero (Nat.ne_zero_of_lt hbound)
    rw [List.map_singleton, linesOf_singleton] at hbound ⊢
    have hitem := h item List.mem_cons_self level bound (blanks ++ ']' :: rest) (by omega)
      (ends_append hblanks (ends_cons rfl _))
    rw [readItems, hitem]
    simp only [skipBlanks_append hblanks, skipBlanks_cons (c := ']') rfl]
  | cons next items ih =>
    obtain ⟨bound, rfl⟩ := Nat.exists_eq_succ_of_ne_zero (Nat.ne_zero_of_lt hbound)
    rw [List.map_cons, List.map_cons, linesOf_cons_cons, ← List.map_cons] at hbound ⊢
    simp only [List.length_append, List.length_cons] at hbound
    rw [List.forall_mem_cons] at h
    rw [List.append_assoc, List.cons_append, List.append_assoc]
    rw [readItems, h.1 level bound _ (by omega) (ends_cons rfl _)]
    simp only [skipBlanks_cons (c := ',') rfl]
    rw [readItems_append (blanks_lineChars level), ih h.2 (by omega)]
    rfl

theorem memberChars_append (level : Nat) (m : Literal × Json) (rest : List Char) :
    memberChars level m ++ rest =
      '"' :: (m.1.chars ++ ':' :: ' ' :: (prettyChars level m.2 ++ rest)) := by
  simp [memberChars]

/-- The value of a member is read back after the space before it. -/
theorem readValue_member {level bound : Nat} {m : Literal × Json} {rest : List Char}
    (h : m.2.TextReadsBack) (hbound : 2 * (memberChars level m).length < bound + 1)
    (hrest : Ends rest) :
    readValue bound (' ' :: (prettyChars level m.2 ++ rest)) = some (m.2, rest) := by
  have hspace : Blanks [' '] := by simp [Blanks, isBlank]
  simp only [memberChars, List.length_cons, List.length_append] at hbound
  rw [← List.singleton_append, readValue_append hspace]
  exact h level bound rest (by omega) hrest

/-- Members are read back, up to the brace that closes them. -/
theorem readMembers_of_textReadsBack {level : Nat} {blanks rest : List Char}
    (hblanks : Blanks blanks) {m : Literal × Json} {members : Members}
    (h : ∀ n ∈ m :: members, n.2.TextReadsBack) {bound : Nat}
    (hbound : 2 * (linesOf level ((m :: members).map (memberChars level))).length < bound) :
    readMembers bound (linesOf level ((m :: members).map (memberChars level)) ++
      (blanks ++ '\x7d' :: rest)) = some (m :: members, rest) := by
  induction members generalizing m bound with
  | nil =>
    obtain ⟨bound, rfl⟩ := Nat.exists_eq_succ_of_ne_zero (Nat.ne_zero_of_lt hbound)
    rw [List.map_singleton, linesOf_singleton] at hbound ⊢
    have hvalue := readValue_member (h m List.mem_cons_self) hbound
      (ends_append hblanks (ends_cons (c := '\x7d') rfl rest))
    rw [memberChars_append, readMembers, skipBlanks_cons (c := '"') rfl]
    simp only [readString_chars, skipBlanks_cons (c := ':') rfl, hvalue, skipBlanks_append hblanks,
      skipBlanks_cons (c := '\x7d') rfl]
  | cons next members ih =>
    obtain ⟨bound, rfl⟩ := Nat.exists_eq_succ_of_ne_zero (Nat.ne_zero_of_lt hbound)
    rw [List.map_cons, List.map_cons, linesOf_cons_cons, ← List.map_cons] at hbound ⊢
    simp only [List.length_append, List.length_cons] at hbound
    rw [List.forall_mem_cons] at h
    rw [List.append_assoc, List.cons_append, List.append_assoc]
    have hm : 2 * (memberChars level m).length < bound + 1 := by omega
    have hvalue := fun text => readValue_member h.1 hm (ends_cons (c := ',') rfl text)
    rw [memberChars_append, readMembers, skipBlanks_cons (c := '"') rfl]
    simp only [readString_chars, skipBlanks_cons (c := ':') rfl, hvalue,
      skipBlanks_cons (c := ',') rfl]
    rw [readMembers_append (blanks_lineChars level), ih h.2 (by omega)]
    rfl

/-- No value begins with a bracket that closes. -/
theorem readValue_of_skipBlanks_eq {bound : Nat} {text rest : List Char}
    (h : skipBlanks text = ']' :: rest) : readValue bound text = none := by
  cases bound with
  | zero => rfl
  | succ bound =>
    rw [readValue, h]
    rfl

/-- Items in brackets are an array. -/
theorem readValue_of_readItems {bound : Nat} {text rest : List Char} {items : List Json}
    (h : readItems bound text = some (items, rest)) :
    readValue (bound + 1) ('[' :: text) = some (.array items, rest) := by
  rw [readValue, skipBlanks_cons rfl]
  simp only
  split
  next hclosing =>
    cases bound with
    | zero => cases h
    | succ bound =>
      rw [readItems, readValue_of_skipBlanks_eq hclosing] at h
      cases h
  · rw [h]
    rfl

/-- Members in braces are an object. -/
theorem readValue_of_readMembers {bound : Nat} {text rest : List Char} {members : Members}
    (h : readMembers bound text = some (members, rest)) :
    readValue (bound + 1) ('\x7b' :: text) = some (.object members, rest) := by
  rw [readValue, skipBlanks_cons rfl]
  simp only
  split
  next hclosing =>
    cases bound with
    | zero => cases h
    | succ bound =>
      rw [readMembers, hclosing] at h
      cases h
  · rw [h]
    rfl

/-- What begins with a digit is left to the reader of numbers. -/
theorem readValue_of_isDigit {c : Char} (hc : c.isDigit = true) (bound : Nat) (text : List Char) :
    readValue (bound + 1) (c :: text) =
      (readNumber (c :: text)).map fun (n, rest) => (.number n, rest) := by
  have hblank : isBlank c = false := by
    by_contra hblank
    simp only [isBlank, Bool.not_eq_false, Bool.or_eq_true, decide_eq_true_eq] at hblank
    rcases hblank with ((rfl | rfl) | rfl) | rfl <;> cases hc
  rw [readValue, skipBlanks_cons hblank]
  split
  all_goals first
    | rfl
    | (next h => rw [(List.cons.inj h).1] at hc; cases hc)

/-- A text that is the same at every level is read back if one step reads it. -/
theorem textReadsBack_of_readValue {value : Json} (chars : List Char)
    (hchars : ∀ level, prettyChars level value = chars) (hne : chars ≠ [])
    (h : ∀ bound rest, Ends rest → readValue (bound + 1) (chars ++ rest) = some (value, rest)) :
    value.TextReadsBack := by
  intro level bound rest hbound hrest
  have hpos := List.length_pos_iff.2 hne
  rw [hchars level] at hbound ⊢
  obtain ⟨bound, rfl⟩ := Nat.exists_eq_add_of_le' (show 1 ≤ bound by omega)
  exact h bound rest hrest

theorem textReadsBack_natural (n : Nat) : (Json.number (.natural n)).TextReadsBack := by
  refine textReadsBack_of_readValue (Nat.toDigits 10 n)
    (fun level => by rw [prettyChars, pretty]; simp [Number.render, Nat.repr])
    Nat.toDigits_ne_nil ?_
  intro bound rest hrest
  obtain ⟨c, digits, hdigits, hc⟩ := exists_toDigits_eq n
  have hnumber := readNumber_toDigits n hrest
  rw [hdigits, List.cons_append] at hnumber ⊢
  rw [readValue_of_isDigit hc, hnumber]
  rfl

theorem textReadsBack_string (literal : Literal) : (Json.string literal).TextReadsBack := by
  refine textReadsBack_of_readValue ('"' :: literal.chars)
    (fun level => by rw [prettyChars, pretty, literal.toList_render]) (List.cons_ne_nil _ _) ?_
  intro bound rest _
  rw [List.cons_append, readValue, skipBlanks_cons (c := '"') rfl]
  simp only [readString_chars]
  rfl

theorem textReadsBack_array {item : Json} {items : List Json}
    (h : ∀ i ∈ item :: items, i.TextReadsBack) :
    (Json.array (item :: items)).TextReadsBack := by
  intro level bound rest hbound _
  rw [prettyChars_array] at hbound ⊢
  simp only [List.length_cons, List.length_append] at hbound
  simp only [List.cons_append, List.append_assoc, List.nil_append]
  obtain ⟨bound, rfl⟩ := Nat.exists_eq_add_of_le' (show 1 ≤ bound by omega)
  refine readValue_of_readItems ?_
  rw [readItems_append (blanks_lineChars _)]
  exact readItems_of_textReadsBack (blanks_lineChars _) h (by omega)

theorem textReadsBack_object {m : Literal × Json} {members : Members}
    (h : ∀ n ∈ m :: members, n.2.TextReadsBack) :
    (Json.object (m :: members)).TextReadsBack := by
  intro level bound rest hbound _
  rw [prettyChars_object] at hbound ⊢
  simp only [List.length_cons, List.length_append] at hbound
  simp only [List.cons_append, List.append_assoc, List.nil_append]
  obtain ⟨bound, rfl⟩ := Nat.exists_eq_add_of_le' (show 1 ≤ bound by omega)
  refine readValue_of_readMembers ?_
  rw [readMembers_append (blanks_lineChars _)]
  exact readMembers_of_textReadsBack (blanks_lineChars _) h (by omega)

mutual

/-- **Every value whose numbers are words is read back.** -/
theorem textReadsBack : ∀ {value : Json}, value.HasWords → value.TextReadsBack
  | .null, _ => textReadsBack_of_readValue ['n', 'u', 'l', 'l']
      (fun _ => by rw [prettyChars, pretty]; rfl) (by decide) fun _ _ _ => rfl
  | .bool true, _ => textReadsBack_of_readValue ['t', 'r', 'u', 'e']
      (fun _ => by rw [prettyChars, pretty]; rfl) (by decide) fun _ _ _ => rfl
  | .bool false, _ => textReadsBack_of_readValue ['f', 'a', 'l', 's', 'e']
      (fun _ => by rw [prettyChars, pretty]; rfl) (by decide) fun _ _ _ => rfl
  | .number (.numeral _), h => by cases h
  | .number (.natural n), _ => textReadsBack_natural n
  | .string literal, _ => textReadsBack_string literal
  | .array [], _ => textReadsBack_of_readValue ['[', ']']
      (fun _ => by rw [prettyChars, pretty]; rfl) (by decide) fun _ _ _ => rfl
  | .array (item :: items), h => textReadsBack_array (textsReadBack h)
  | .object [], _ => textReadsBack_of_readValue ['\x7b', '\x7d']
      (fun _ => by rw [prettyChars, pretty]; rfl) (by decide) fun _ _ _ => rfl
  | .object (m :: members), h => textReadsBack_object (memberTextsReadBack h)

/-- The same for the items of an array. -/
theorem textsReadBack : ∀ {items : List Json}, (Json.array items).HasWords →
    ∀ item ∈ items, item.TextReadsBack
  | [], _ => by simp
  | item :: items, h => by
    obtain ⟨hitem, hitems⟩ := List.forall_mem_cons.1 (hasWords_array_iff.1 h)
    exact List.forall_mem_cons.2
      ⟨textReadsBack hitem, textsReadBack (hasWords_array_iff.2 hitems)⟩

/-- The same for the members of an object. -/
theorem memberTextsReadBack : ∀ {members : Members}, (Json.object members).HasWords →
    ∀ m ∈ members, m.2.TextReadsBack
  | [], _ => by simp
  | (name, value) :: members, h => by
    obtain ⟨hm, hmembers⟩ := List.forall_mem_cons.1 (hasWords_object_iff.1 h)
    exact List.forall_mem_cons.2
      ⟨textReadsBack hm, memberTextsReadBack (hasWords_object_iff.2 hmembers)⟩

end

/-- **A printed text is read as the value that it was printed from.** -/
theorem parse?_pretty {value : Json} (h : value.HasWords) :
    parse? (pretty 0 value ++ "\n") = some value := by
  have hread : readValue (2 * (pretty 0 value ++ "\n").toList.length + 2)
      (pretty 0 value ++ "\n").toList = some (value, ['\n']) := by
    rw [String.toList_append]
    refine textReadsBack h 0 _ _ ?_ (ends_cons rfl [])
    rw [List.length_append, prettyChars]
    omega
  rw [parse?, hread]
  rfl

end CallPolicy.Json
