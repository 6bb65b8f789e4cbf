/-!
# Patterns for file paths

A pattern is matched against a whole text: `?` is any character, `*` any characters, `[…]` one of a
set, `[!…]` none of a set, and `**` as a whole path segment is any number of segments.  Neither `*`
nor `?` stops at a slash.

`matchTokens` says what a pattern matches.  It tries every end of the text for each star, which
takes too long for many stars; `Glob.isMatch` answers the same question row by row.

## Termination

Matching is structural in the tokens, and for each of them in the text.
-/

namespace CallPolicy

/-- A member of a set of characters. -/
inductive Glob.Member where
  | single (c : Char)
  | range (first last : Char)
deriving DecidableEq, Repr

/-- A part of a pattern. -/
inductive Glob.Token where
  /-- The character itself. -/
  | char (c : Char)
  /-- Any character. -/
  | one
  /-- Any characters. -/
  | any
  /-- Any number of path segments. -/
  | segments
  /-- A character of the set. -/
  | oneOf (set : List Glob.Member)
  /-- A character outside the set. -/
  | noneOf (set : List Glob.Member)
deriving DecidableEq, Repr

/-- A pattern. -/
structure Glob where
  tokens : List Glob.Token
deriving DecidableEq, Repr

/-- What is wrong with a pattern. -/
inductive Glob.Fault where
  /-- Three or more stars in a row. -/
  | stars
  /-- Two stars that are not a whole path segment. -/
  | segment
  /-- A set that is empty or does not end. -/
  | set
deriving DecidableEq, Repr

/-- A pattern that cannot be read: the fault and the character near which it is. -/
structure Glob.Error where
  position : Nat
  fault : Glob.Fault
deriving DecidableEq, Repr

namespace Glob

/-- The wording of a fault. -/
def Fault.message : Fault → String
  | .stars => "wildcards are either regular `*` or recursive `**`"
  | .segment => "recursive wildcards must form a single path component"
  | .set => "invalid range pattern"

/-- The wording of an error. -/
def Error.message (e : Error) : String :=
  "Pattern syntax error near position " ++ Nat.repr e.position ++ ": " ++ e.fault.message

/-! ## Matching -/

/-- The character is the member or in its range. -/
def Member.accepts (c : Char) : Member → Bool
  | .single d => c = d
  | .range first last => first ≤ c && c ≤ last

/-- The part of the pattern matches the single character. -/
def Token.accepts (c : Char) : Token → Bool
  | .char d => c = d
  | .one => true
  | .oneOf set => set.any (·.accepts c)
  | .noneOf set => !set.any (·.accepts c)
  | .any => false
  | .segments => false

/-- Some end of the text, up to the whole of it, has the property. -/
def someEnd (p : List Char → Bool) : List Char → Bool
  | [] => p []
  | c :: text => p (c :: text) || someEnd p text

/-- Some end of the text that follows a slash, or the empty end, has the property. -/
def someSegmentEnd (p : List Char → Bool) : List Char → Bool
  | [] => p []
  | c :: text => (c = '/' && p text) || someSegmentEnd p text

/-- The tokens match the whole text. -/
def matchTokens : List Token → List Char → Bool
  | [], text => text.isEmpty
  | .any :: tokens, text => someEnd (matchTokens tokens) text
  | .segments :: tokens, text => matchTokens tokens text || someSegmentEnd (matchTokens tokens) text
  | _ :: _, [] => false
  | token :: tokens, c :: text => token.accepts c && matchTokens tokens text

end Glob

end CallPolicy
