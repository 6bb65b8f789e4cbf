import CallPolicy.OrderedMap
import CallPolicy.Text.Basic

/-!
# Module paths and their origins

A module is named by a slash-separated path.  The copy of a dependency that lives under a `vendor`
directory belongs to the module it was copied from: its *origin* is what follows the last `vendor`
segment.  A module may also be a façade that re-exports another one; an `OriginMap` lists such
modules with the module that really defines what they export.  A rule covers whole path segments: a
rule for `a/b` covers `a/b` and `a/b/c`, not `a/bc`, and of two rules that cover a path the longer
one applies.
-/

namespace CallPolicy

/-- The path of a module; the empty path is the scope of predeclared names. -/
structure ModulePath where
  text : String
deriving DecidableEq, Repr, Inhabited

namespace ModulePath

/-- What follows the last `vendor` segment, or the whole path if there is none. -/
def originChars (path : List Char) : List Char :=
  match Text.afterLast? "/vendor/".toList path with
  | some rest => rest
  | none => (Text.after? "vendor/".toList path).getD path

/-- The path of the module that `path` is a copy of, itself if it is no copy. -/
def origin (path : ModulePath) : String :=
  String.ofList (originChars path.text.toList)

/-- The path points into a `vendor` directory. -/
def isVendored (path : ModulePath) : Bool :=
  path.origin.length != path.text.length

end ModulePath

/-- Re-exporting modules, each with the module that defines what it exports. -/
structure OriginMap where
  rules : OrderedMap String String
deriving DecidableEq, Inhabited

namespace OriginMap

/-- No rules: only copies are traced back. -/
def empty : OriginMap := ⟨.empty⟩

/-- The map with a rule from `source` and the modules below it to `target`. -/
def withRule (m : OriginMap) (source target : String) : OriginMap :=
  ⟨m.rules.insert source target⟩

/-- What is left of `path` below `source`, if `source` is a sequence of whole leading segments. -/
def below? (source path : List Char) : Option (List Char) :=
  (Text.after? source path).filter fun rest => rest.isEmpty || rest.head? = some '/'

/-- The longest of the rules that cover `path`. -/
def longestRule? (path : List Char) (rules : List (String × String)) : Option (String × String) :=
  rules.foldl (fun best rule =>
    if (below? rule.1.toList path).isSome && best.all (·.1.length ≤ rule.1.length) then some rule
    else best) none

/-- The path of the module that defines what the given one exports. -/
def origin (m : OriginMap) (path : ModulePath) : String :=
  match longestRule? path.origin.toList m.rules.entries with
  | some (source, target) => target ++ String.ofList (path.origin.toList.drop source.length)
  | none => path.origin

end OriginMap

end CallPolicy
