import CallPolicy.FileTree.Basic
import CallPolicy.Model.Basic
import CallPolicy.Text.Quoted

/-!
# Why a model cannot be loaded

Each cause with its message, its code and the advice that goes with it.
-/

namespace CallPolicy

/-- Why the packages to analyze cannot be loaded. -/
inductive ResolveError where
  /-- A specifier matches nothing. -/
  | notFound (spec : String) (dir : Path)
  /-- A model file cannot be read. -/
  | unreadable (path : Path) (cause : FileError)
  /-- A model file does not hold a model.  Where and why, as the reader of JSON words it, is left
  out. -/
  | malformed (path : Path)
  /-- A model refers to something that it does not hold. -/
  | inconsistent (what : Dangling)
  /-- The source of models failed by itself. -/
  | failed (specs : List String) (message : String)
deriving DecidableEq, Repr

namespace ResolveError

/-- What happened, without the wording of a reader of JSON. -/
def message : ResolveError → String
  | .notFound spec dir => "no packages found for " ++ Text.quote spec ++ " in " ++ dir.text
  | .unreadable path cause => "failed to read " ++ path.text ++ ": " ++ cause.message
  | .malformed path => "failed to parse program model " ++ path.text
  | .inconsistent what => "program model is inconsistent: dangling " ++ what.describe
  | .failed specs message => "failed to load packages " ++ Text.quoteList specs ++ ": " ++ message

/-- The code of the kind of error. -/
def code : ResolveError → String
  | .notFound _ _ => "callgate::resolve::not_found"
  | .unreadable _ _ => "callgate::resolve::io"
  | .malformed _ => "callgate::resolve::parse"
  | .inconsistent _ => "callgate::resolve::dangling"
  | .failed _ _ => "callgate::resolve::failed"

/-- What to do about it. -/
def help? : ResolveError → Option String
  | .inconsistent _ => some "regenerate the program model with the resolution front-end"
  | _ => none

end ResolveError

/-- The model, if it is consistent. -/
def Model.validate (m : Model) : Except ResolveError Model :=
  match m.findDangling? with
  | some what => .error (.inconsistent what)
  | none => .ok m

end CallPolicy
