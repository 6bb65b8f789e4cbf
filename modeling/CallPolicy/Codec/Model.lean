import CallPolicy.Codec.TypeExpr
import CallPolicy.Json.Parser
import CallPolicy.Model.References

/-!
# Program models in JSON

How packages, symbols, table entries and whole models are written as JSON values, and how they are
read.  A symbol and a table entry share one object with the fields of their kind, and an occurrence
shares one with its position: what belongs to the kind or to the position is read ahead.
-/

namespace CallPolicy

open Json (ofText ofNat ofMembers required defaulted fieldsOf listOf namedMembers? readAhead?)

/-! ## Positions, files, comments -/

/-- A path as a JSON value. -/
def Path.encode (p : Path) : Json :=
  ofText p.text

/-- A path from a JSON value. -/
def Path.decode (value : Json) : Option Path :=
  value.text?.map Path.mk

/-- The members of a position. -/
def Position.members (p : Position) : List (String × Json) :=
  [("file", p.file.encode), ("line", ofNat p.line), ("column", ofNat p.column)]

/-- A position as a JSON value. -/
def Position.encode (p : Position) : Json :=
  ofMembers p.members

/-- A position from the members of a record. -/
def Position.ofFields (fields : Json.Members) : Option Position := do
  let file ← required Path.decode "file" fields
  let line ← required Json.nat? "line" fields
  let column ← required Json.nat? "column" fields
  some ⟨file, line, column⟩

/-- A position from a JSON value. -/
def Position.decode : Nat → Json → Option Position
  | 0, _ => none
  | _ + 1, value => (fieldsOf ["file", "line", "column"] value).bind Position.ofFields

/-- A source file as a JSON value. -/
def SourceFile.encode (f : SourceFile) : Json :=
  ofMembers (("path", f.path.encode) :: Json.listMember "lines" (f.lines.map ofText))

/-- A source file from a JSON value. -/
def SourceFile.decode : Nat → Json → Option SourceFile
  | 0, _ => none
  | depth + 1, value => do
    let fields ← fieldsOf ["path", "lines"] value
    let path ← required Path.decode "path" fields
    let lines ← defaulted [] (listOf (fun _ => Json.text?) depth) "lines" fields
    some ⟨path, lines⟩

/-- An occurrence as a JSON value. -/
def Occurrence.encode (o : Occurrence) : Json :=
  ofMembers (o.position.members ++ [("symbol", ofNat o.symbol)])

/-- An occurrence from a JSON value. -/
def Occurrence.decode : Nat → Json → Option Occurrence
  | depth + 1, .object members => do
    let members ← namedMembers? members
    let symbol ← required Json.nat? "symbol" members
    let others ← readAhead? depth ["symbol"] members
    let position ← Position.ofFields others
    some ⟨position, symbol⟩
  | _, _ => none

/-- A comment as a JSON value. -/
def Comment.encode (c : Comment) : Json :=
  ofMembers [("file", c.file.encode), ("line", ofNat c.line), ("text", ofText c.text)]

/-- A comment from a JSON value. -/
def Comment.decode : Nat → Json → Option Comment
  | 0, _ => none
  | _ + 1, value => do
    let fields ← fieldsOf ["file", "line", "text"] value
    let file ← required Path.decode "file" fields
    let line ← required Json.nat? "line" fields
    let text ← required Json.text? "text" fields
    some ⟨file, line, text⟩

/-- A package as a JSON value. -/
def Package.encode (p : Package) : Json :=
  ofMembers [("path", ofText p.path), ("files", .array (p.files.map SourceFile.encode)),
    ("uses", .array (p.uses.map Occurrence.encode)),
    ("comments", .array (p.comments.map Comment.encode))]

/-- A package from a JSON value. -/
def Package.decode : Nat → Json → Option Package
  | 0, _ => none
  | depth + 1, value => do
    let fields ← fieldsOf ["path", "files", "uses", "comments"] value
    let path ← required Json.text? "path" fields
    let files ← defaulted [] (listOf SourceFile.decode depth) "files" fields
    let uses ← defaulted [] (listOf Occurrence.decode depth) "uses" fields
    let comments ← defaulted [] (listOf Comment.decode depth) "comments" fields
    some ⟨path, files, uses, comments⟩

/-! ## Symbols and declared types -/

/-- A module path from a JSON value. -/
def ModulePath.decode (value : Json) : Option ModulePath :=
  value.text?.map ModulePath.mk

/-- The alternative that a tag selects: by its name, or by its place in the list of names. -/
def Json.tag? (names : List String) : Json → Option String
  | .string (some name) => if name ∈ names then some name else none
  | .number (.natural n) => if n ≤ Decimal.maxWord then names[n]? else none
  | _ => none

/-- The members of a symbol's kind. -/
def Symbol.Kind.members : Symbol.Kind → List (String × Json)
  | .function signature => [("kind", ofText "function"), ("signature", signature.encode)]
  | .method receiver signature =>
    [("kind", ofText "method"), ("receiver", receiver.encode), ("signature", signature.encode)]
  | .variable => [("kind", ofText "variable")]
  | .constant => [("kind", ofText "constant")]
  | .typeName => [("kind", ofText "type_name")]

/-- The names of the kinds of symbols, in their order. -/
def Symbol.Kind.names : List String :=
  ["function", "method", "variable", "constant", "type_name"]

/-- A symbol's kind from members that were read ahead. -/
def Symbol.Kind.ofMembers (depth : Nat) (members : Json.Members) : Option Symbol.Kind := do
  match ← required (Json.tag? names) "kind" members with
  | "function" =>
    let signature ← required (Signature.decode true depth) "signature" members
    some (.function signature)
  | "method" =>
    let receiver ← required (Binding.decode true depth) "receiver" members
    let signature ← required (Signature.decode true depth) "signature" members
    some (.method receiver signature)
  | "variable" => some .variable
  | "constant" => some .constant
  | "type_name" => some .typeName
  | _ => none

/-- A symbol as a JSON value. -/
def Symbol.encode (s : Symbol) : Json :=
  Json.ofMembers ([("name", ofText s.name), ("module", ofText s.module.text)] ++ s.kind.members)

/-- A symbol from a JSON value. -/
def Symbol.decode : Nat → Json → Option Symbol
  | depth + 1, .object members => do
    let members ← namedMembers? members
    let name ← required Json.text? "name" members
    let module ← defaulted ⟨""⟩ ModulePath.decode "module" members
    let others ← readAhead? depth ["name", "module"] members
    let kind ← Symbol.Kind.ofMembers depth others
    some ⟨name, module, kind⟩
  | _, _ => none

/-- The members of a table entry's kind. -/
def TypeDef.Kind.members : TypeDef.Kind → List (String × Json)
  | .defined underlying => [("kind", ofText "defined"), ("underlying", underlying.encode)]
  | .alias target => [("kind", ofText "alias"), ("target", target.encode)]

/-- The names of the kinds of table entries, in their order. -/
def TypeDef.Kind.names : List String :=
  ["defined", "alias"]

/-- A table entry's kind from members that were read ahead. -/
def TypeDef.Kind.ofMembers (depth : Nat) (members : Json.Members) : Option TypeDef.Kind := do
  match ← required (Json.tag? names) "kind" members with
  | "defined" =>
    let underlying ← required (TypeExpr.decode true depth) "underlying" members
    some (.defined underlying)
  | "alias" =>
    let target ← required (TypeExpr.decode true depth) "target" members
    some (.alias target)
  | _ => none

/-- A table entry as a JSON value. -/
def TypeDef.encode (d : TypeDef) : Json :=
  Json.ofMembers ([("module", ofText d.module.text), ("name", ofText d.name)] ++
    Json.listMember "args" (d.args.map TypeExpr.encode) ++ d.kind.members)

/-- A table entry from a JSON value. -/
def TypeDef.decode : Nat → Json → Option TypeDef
  | depth + 1, .object members => do
    let members ← namedMembers? members
    let module ← defaulted ⟨""⟩ ModulePath.decode "module" members
    let name ← required Json.text? "name" members
    let args ← defaulted [] (listOf (TypeExpr.decode false) depth) "args" members
    let others ← readAhead? depth ["module", "name", "args"] members
    let kind ← TypeDef.Kind.ofMembers depth others
    some ⟨module, name, args, kind⟩
  | _, _ => none

/-! ## Models and references -/

/-- A table of declared types as a JSON value. -/
def TypeTable.encode (t : TypeTable) : Json :=
  .array (t.map TypeDef.encode)

/-- A table of declared types from a JSON value. -/
def TypeTable.decode : Nat → Json → Option TypeTable :=
  listOf TypeDef.decode

/-- A model as a JSON value. -/
def Model.encode (m : Model) : Json :=
  ofMembers [("packages", .array (m.packages.map Package.encode)),
    ("symbols", .array (m.symbols.map Symbol.encode)), ("types", TypeTable.encode m.types)]

/-- A model from a JSON value. -/
def Model.decode : Nat → Json → Option Model
  | 0, _ => none
  | depth + 1, value => do
    let fields ← fieldsOf ["packages", "symbols", "types"] value
    let packages ← defaulted [] (listOf Package.decode depth) "packages" fields
    let symbols ← defaulted [] (listOf Symbol.decode depth) "symbols" fields
    let types ← defaulted [] (TypeTable.decode depth) "types" fields
    some ⟨packages, symbols, types⟩

/-- A model from its JSON text. -/
def Model.parse? (text : String) : Option Model :=
  (Json.parse? text).bind (Model.decode Json.maxDepth)

/-- A reference as a JSON value. -/
def Reference.encode (r : Reference) : Json :=
  ofMembers [("position", r.position.encode), ("signature", ofText r.signature)]

/-- A reference from a JSON value. -/
def Reference.decode : Nat → Json → Option Reference
  | 0, _ => none
  | depth + 1, value => do
    let fields ← fieldsOf ["position", "signature"] value
    let position ← required (Position.decode depth) "position" fields
    let signature ← required Json.text? "signature" fields
    some ⟨position, signature⟩

end CallPolicy
