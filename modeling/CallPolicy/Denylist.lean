import CallPolicy.CommentTable
import CallPolicy.Text.Quoted

/-!
# Denylists

The canonical signatures that must not be referred to, each with the message to report.  The empty
message stands for a default wording.  A signature is looked up by its exact text.
-/

namespace CallPolicy

/-- Forbidden signatures with their messages. -/
structure Denylist where
  entries : OrderedMap String String
deriving DecidableEq, Inhabited

namespace Denylist

/-- Nothing is forbidden. -/
def empty : Denylist := ⟨.empty⟩

/-- The denylist with one more signature, or with another message for it. -/
def insert (d : Denylist) (signature message : String) : Denylist :=
  ⟨d.entries.insert signature message⟩

/-- The denylist of the given signatures and messages. -/
def ofList (entries : List (String × String)) : Denylist :=
  ⟨.ofList entries⟩

/-- The number of forbidden signatures. -/
def size (d : Denylist) : Nat :=
  d.entries.size

/-- Nothing is forbidden. -/
def isEmpty (d : Denylist) : Bool :=
  d.entries.isEmpty

/-- The message stored for a signature. -/
def stored? (d : Denylist) (signature : String) : Option String :=
  d.entries.get? signature

/-- A look-up after an insertion. -/
theorem stored?_insert (d : Denylist) (signature signature' message : String) :
    (d.insert signature message).stored? signature' =
      if signature' = signature then some message else d.stored? signature' := by
  simp [insert, stored?, OrderedMap.get?_insert]

/-- The wording for a signature without a message of its own. -/
def defaultMessage (signature : String) : String :=
  "references to " ++ Text.quote signature ++
    " are not allowed. Remove this reference or whitelist it by adding a comment of the form '" ++
    okMarker ++ "[reason]' to the line before it."

/-- The message to report for a signature, if it is forbidden. -/
def messageFor? (d : Denylist) (signature : String) : Option String :=
  (d.stored? signature).map fun text => if text.isEmpty then defaultMessage signature else text

/-- A message is reported exactly for the forbidden signatures. -/
theorem isSome_messageFor? (d : Denylist) (signature : String) :
    (d.messageFor? signature).isSome = (d.stored? signature).isSome := by
  simp [messageFor?]

end Denylist

end CallPolicy
