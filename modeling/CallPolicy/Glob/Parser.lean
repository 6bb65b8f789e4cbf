import CallPolicy.Glob.Basic

/-!
# Reading a pattern

## Termination

Reading a pattern is structural in a bound on the number of tokens, of which there are no more than
characters.  The members of a set are structural in its text.
-/

namespace CallPolicy

namespace Glob

/-- The members of a set; a hyphen between two characters makes a range. -/
def readMembers : List Char → List Member
  | first :: '-' :: last :: rest => .range first last :: readMembers rest
  | c :: rest => .single c :: readMembers rest
  | [] => []

/-- A set after its opening bracket: what it holds, and the text after the closing bracket.  The set
has at least one member, so a bracket in first place does not close it. -/
def readSet? : List Char → Option (List Char × List Char)
  | [] => none
  | c :: text =>
    let inside := text.takeWhile (· != ']')
    match text.dropWhile (· != ']') with
    | _ :: rest => some (c :: inside, rest)
    | [] => none

/-- The set at an opening bracket, as a token, and the text after it. -/
def readSetToken? : List Char → Option (Token × List Char)
  | '!' :: text => (readSet? text).map fun (set, rest) => (.noneOf (readMembers set), rest)
  | text => (readSet? text).map fun (set, rest) => (.oneOf (readMembers set), rest)

/-- The tokens of a pattern, read from a position on, where `before` is the character in front
of it. -/
def readTokens : Nat → Nat → Option Char → List Char → Except Error (List Token)
  | 0, _, _, _ => .ok []
  | _ + 1, _, _, [] => .ok []
  | bound + 1, pos, _, '?' :: text =>
    (readTokens bound (pos + 1) (some '?') text).map (.one :: ·)
  | bound + 1, pos, before, '*' :: text =>
    let stars := 1 + (text.takeWhile (· == '*')).length
    let rest := text.dropWhile (· == '*')
    -- the number of stars is judged first, then what is in front of them, then what follows
    if stars = 1 then (readTokens bound (pos + 1) (some '*') rest).map (.any :: ·)
    else if 2 < stars then .error ⟨pos + 2, .stars⟩
    else if before.any (· != '/') then .error ⟨pos - 1, .segment⟩
    else
      match rest with
      | [] => .ok [.segments]
      | c :: rest =>
        if c = '/' then (readTokens bound (pos + 3) (some '/') rest).map (.segments :: ·)
        else .error ⟨pos + 2, .segment⟩
  | bound + 1, pos, _, '[' :: text =>
    -- a set counts as one token, whatever the number of its characters
    match readSetToken? text with
    | none => .error ⟨pos, .set⟩
    | some (token, rest) =>
      (readTokens bound (pos + 1 + (text.length - rest.length)) (some ']') rest).map (token :: ·)
  | bound + 1, pos, _, c :: text =>
    (readTokens bound (pos + 1) (some c) text).map (.char c :: ·)

/-- Reads a pattern. -/
def parse (pattern : String) : Except Error Glob :=
  (readTokens pattern.toList.length 0 none pattern.toList).map Glob.mk

end Glob

end CallPolicy
