import CallPolicy.Glob.Basic

/-!
# Matching a pattern row by row

The row of a pattern tells for each end of the text, from the whole of it to the empty one, whether
the pattern matches that end.  The row of a pattern comes from the row of the pattern without its
first token in one pass over the text, so the work is the number of tokens times the length of the
text.  Up to the first star no row is needed: each token takes one character or fails.

## Termination

A row is structural in the text, the rows of a pattern are structural in its tokens.

## Main statements

* `Glob.matchRow_eq` — the row holds what `matchTokens` says of each end.
* `Glob.isMatch_eq` — the answer is what `matchTokens` says of the whole text.
-/

namespace CallPolicy

namespace Glob

/-! ## Rows -/

/-- For each end of the text, from the whole of it to the empty one, whether it has the property. -/
def rowOf (p : List Char → Bool) : List Char → List Bool
  | [] => [p []]
  | c :: text => p (c :: text) :: rowOf p text

/-- The row with a token in front that matches one character. -/
def Token.oneRow (token : Token) : List Char → List Bool → List Bool
  | c :: text, _ :: row => (token.accepts c && row.headD false) :: oneRow token text row
  | _, _ => [false]

/-- The row with a star in front. -/
def anyRow : List Bool → List Bool
  | [] => []
  | b :: row =>
    let rest := anyRow row
    (b || rest.headD false) :: rest

/-- The row for the ends that follow a slash, and for the empty end. -/
def slashRow : List Char → List Bool → List Bool
  | c :: text, _ :: row =>
    let rest := slashRow text row
    (c = '/' && row.headD false || rest.headD false) :: rest
  | _, row => row

/-- The row with a token in front. -/
def Token.row (text : List Char) (row : List Bool) : Token → List Bool
  | .any => anyRow row
  | .segments => List.zipWith (· || ·) row (slashRow text row)
  | token => token.oneRow text row

/-- The row of a pattern. -/
def matchRow (text : List Char) : List Token → List Bool
  | [] => rowOf List.isEmpty text
  | token :: tokens => token.row text (matchRow text tokens)

/-- The tokens match the whole text, found by rows from the first star on. -/
def matchText : List Token → List Char → Bool
  | .any :: tokens, text => (matchRow text (.any :: tokens)).headD false
  | .segments :: tokens, text => (matchRow text (.segments :: tokens)).headD false
  | [], text => text.isEmpty
  | _ :: _, [] => false
  | token :: tokens, c :: text => token.accepts c && matchText tokens text

/-- The pattern matches the whole text. -/
def isMatch (g : Glob) (text : String) : Bool :=
  matchText g.tokens text.toList

/-! ## Rows and the meaning of a pattern -/

@[simp]
theorem head?_rowOf (p : List Char → Bool) (text : List Char) :
    (rowOf p text).head? = some (p text) := by
  cases text <;> rfl

theorem anyRow_rowOf (p : List Char → Bool) (text : List Char) :
    anyRow (rowOf p text) = rowOf (someEnd p) text := by
  induction text with
  | nil => simp [rowOf, anyRow, someEnd]
  | cons c text ih => simp [rowOf, anyRow, someEnd, ih]

theorem slashRow_rowOf (p : List Char → Bool) (text : List Char) :
    slashRow text (rowOf p text) = rowOf (someSegmentEnd p) text := by
  induction text with
  | nil => rfl
  | cons c text ih => simp [rowOf, slashRow, someSegmentEnd, ih]

theorem zipWith_rowOf (p q : List Char → Bool) (text : List Char) :
    List.zipWith (· || ·) (rowOf p text) (rowOf q text) = rowOf (fun t => p t || q t) text := by
  induction text with
  | nil => rfl
  | cons c text ih => simp [rowOf, ih]

/-- A token that matches one character needs one to match. -/
theorem oneRow_rowOf (token : Token) (p q : List Char → Bool) (text : List Char)
    (hnil : q [] = false) (hcons : ∀ c t, q (c :: t) = (token.accepts c && p t)) :
    token.oneRow text (rowOf p text) = rowOf q text := by
  induction text with
  | nil => simp [rowOf, Token.oneRow, hnil]
  | cons c text ih => simp [rowOf, Token.oneRow, hcons, ih]

/-- The row holds what the pattern says of each end. -/
theorem matchRow_eq (text : List Char) (tokens : List Token) :
    matchRow text tokens = rowOf (matchTokens tokens) text := by
  induction tokens with
  | nil => rfl
  | cons token tokens ih =>
    rw [matchRow, ih]
    cases token with
    | any => exact anyRow_rowOf _ text
    | segments =>
      rw [Token.row, slashRow_rowOf]
      exact zipWith_rowOf _ _ text
    | char d => exact oneRow_rowOf _ _ _ text rfl fun _ _ => rfl
    | one => exact oneRow_rowOf _ _ _ text rfl fun _ _ => rfl
    | oneOf set => exact oneRow_rowOf _ _ _ text rfl fun _ _ => rfl
    | noneOf set => exact oneRow_rowOf _ _ _ text rfl fun _ _ => rfl

/-- Matching by rows is matching. -/
theorem matchText_eq (tokens : List Token) (text : List Char) :
    matchText tokens text = matchTokens tokens text := by
  fun_induction matchText tokens text with
  | case1 tokens text => simp [matchRow_eq]
  | case2 tokens text => simp [matchRow_eq]
  | case3 text => rfl
  | case4 token tokens hany hsegments => cases token <;> simp_all [matchTokens]
  | case5 token tokens c text hany hsegments ih => cases token <;> simp_all [matchTokens]

/-- A pattern matches the texts that its tokens match. -/
theorem isMatch_eq (g : Glob) (text : String) :
    g.isMatch text = matchTokens g.tokens text.toList :=
  matchText_eq g.tokens text.toList

end Glob

end CallPolicy
