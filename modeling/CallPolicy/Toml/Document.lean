import CallPolicy.Toml.Scalar

/-!
# Reading TOML documents

A document is a sequence of lines: a value under a key, a header, or nothing; each may end in a
comment.  Values under keys belong to the header before them, or to the document itself.

## Termination

Keys are structural in a bound that covers their line.  Values are structural in a bound on the
number of steps, and lines in a bound on the number of lines; a line uses up a character and a step
into a value at least half a one, so the length of the text and twice as much cover both.
-/

namespace CallPolicy.Toml

/-- The number of arrays and inline tables that may not be open at a time any more; a dotted key
has fewer parts, too. -/
def depthLimit : Nat := 80

/-! ## Keys -/

/-- A character of a key without quotes. -/
def isKeyChar (c : Char) : Bool :=
  ('a' ≤ c && c ≤ 'z') || ('A' ≤ c && c ≤ 'Z') || ('0' ≤ c && c ≤ '9') || c = '_' || c = '-'

/-- One part of a key. -/
def readKeyPart (text : List Char) : Option (String × List Char) :=
  match readShortString text with
  | some (part, rest) => some (String.ofList part, rest)
  | none =>
    let part := text.takeWhile isKeyChar
    if part.isEmpty then none else some (String.ofList part, text.dropWhile isKeyChar)

/-- The parts of a key, with blanks around them. -/
def readKeyParts : Nat → List Char → Option (List String × List Char)
  | 0, _ => none
  | bound + 1, text => do
    let (part, rest) ← readKeyPart (skipBlanks text)
    match skipBlanks rest with
    | '.' :: rest =>
      let (parts, rest) ← readKeyParts bound rest
      some (part :: parts, rest)
    | rest => some ([part], rest)

/-- A key, as the path to its last part and that part. -/
def readKey (text : List Char) : Option ((List String × String) × List Char) := do
  let (parts, rest) ← readKeyParts (lineBound text) text
  let last ← parts.getLast?
  if parts.length < depthLimit then some ((parts.dropLast, last), rest) else none

/-! ## Blank lines and comments -/

/-- The text after a comment, if there is one; the line end stays. -/
def skipComment : List Char → List Char
  | '#' :: rest => rest.dropWhile isTextChar
  | text => text

/-- The text after blanks, a comment and the end of the line or of the text. -/
def endLine? (text : List Char) : Option (List Char) :=
  match skipComment (skipBlanks text) with
  | [] => some []
  | rest => lineEnd? rest

/-- The text after blanks, line ends and comments, as they may stand between the items of an
array. -/
def skipLayout : Nat → List Char → Option (List Char)
  | 0, text => some text
  | bound + 1, text =>
    match skipBlanks text with
    | '#' :: rest =>
      match lineEnd? (rest.dropWhile isTextChar) with
      | some rest => skipLayout bound rest
      | none => none
    | rest =>
      match lineEnd? rest with
      | some rest => skipLayout bound rest
      | none => some rest

/-! ## Values -/

/-- A value that is neither an array nor a table. -/
def readScalar : List Char → Option (Value × List Char)
  | 't' :: 'r' :: 'u' :: 'e' :: rest => some (.boolean true, rest)
  | 'f' :: 'a' :: 'l' :: 's' :: 'e' :: rest => some (.boolean false, rest)
  | text =>
    ((readString text).map fun (s, rest) => (Value.string (String.ofList s), rest)).or
      ((readMoment text).or (readNumber text))

mutual

/-- A value, where `depth` arrays and inline tables are open. -/
def readValue : Nat → Nat → List Char → Option (Value × List Char)
  | 0, _, _ => none
  | bound + 1, depth, '[' :: rest =>
    if depth + 1 < depthLimit then
      (readItems bound (depth + 1) rest).map fun (items, rest) => (.array items, rest)
    else none
  | bound + 1, depth, '\x7b' :: rest =>
    if depth + 1 < depthLimit then
      match skipBlanks rest with
      | '\x7d' :: rest => some (.table [], rest)
      | rest => do
        let (pairs, rest) ← readPairs bound (depth + 1) rest
        let filled ← Table.opened.addValues pairs
        some (filled.toValue, rest)
    else none
  | _ + 1, _, text => readScalar text

/-- The items of an array up to the closing bracket; a comma may follow the last one. -/
def readItems : Nat → Nat → List Char → Option (List Value × List Char)
  | 0, _, _ => none
  | bound + 1, depth, text => do
    match ← skipLayout bound text with
    | ']' :: rest => some ([], rest)
    | rest =>
      let (item, rest) ← readValue bound depth rest
      match ← skipLayout bound rest with
      | ',' :: rest =>
        let (items, rest) ← readItems bound depth rest
        some (item :: items, rest)
      | ']' :: rest => some ([item], rest)
      | _ => none

/-- The pairs of an inline table up to the closing brace. -/
def readPairs : Nat → Nat → List Char → Option (List (List String × String × Value) × List Char)
  | 0, _, _ => none
  | bound + 1, depth, text => do
    let ((path, key), rest) ← readKey text
    let rest ← expect '=' rest
    let (value, rest) ← readValue bound depth (skipBlanks rest)
    match skipBlanks rest with
    | ',' :: rest =>
      let (pairs, rest) ← readPairs bound depth rest
      some ((path, key, value) :: pairs, rest)
    | '\x7d' :: rest => some ([(path, key, value)], rest)
    | _ => none

end

/-! ## Documents -/

/-- A line of a document. -/
inductive Line where
  | pair (path : List String) (key : String) (value : Value)
  | table (path : List String) (key : String)
  | arrayTable (path : List String) (key : String)

/-- A line that is not blank, and the text after it; the bound is no less than the length of the
text. -/
def readLine (bound : Nat) (text : List Char) : Option (Line × List Char) :=
  match text with
  | '[' :: '[' :: rest => do
    let ((path, key), rest) ← readKey rest
    let rest ← expect ']' rest
    let rest ← expect ']' rest
    let rest ← endLine? rest
    some (.arrayTable path key, rest)
  | '[' :: rest => do
    let ((path, key), rest) ← readKey rest
    let rest ← expect ']' rest
    let rest ← endLine? rest
    some (.table path key, rest)
  | _ => do
    let ((path, key), rest) ← readKey text
    let rest ← expect '=' rest
    let (value, rest) ← readValue (2 * bound + 2) 0 (skipBlanks rest)
    let rest ← endLine? rest
    some (.pair path key value, rest)

/-- The lines of a document that are not blank. -/
def readLines : Nat → List Char → Option (List Line)
  | 0, _ => some []
  | bound + 1, text =>
    match skipBlanks text with
    | [] => some []
    | '#' :: rest => do
      let rest ← endLine? ('#' :: rest)
      readLines bound rest
    | c :: rest =>
      match lineEnd? (c :: rest) with
      | some rest => readLines bound rest
      | none => do
        let (line, rest) ← readLine bound (c :: rest)
        let lines ← readLines bound rest
        some (line :: lines)

/-- The values under keys at the start of the lines, and the lines from the next header on. -/
def takePairs : List Line → List (List String × String × Value) × List Line
  | .pair path key value :: rest =>
    let (pairs, rest) := takePairs rest
    ((path, key, value) :: pairs, rest)
  | rest => ([], rest)

/-- The document's table with the tables that headers open, each with the values below it. -/
def addSections : List Line → Table → Option Table
  | [], t => some t
  | .pair _ _ _ :: rest, t => addSections rest t
  | .table path key :: rest, t => do
    let t ← t.addTable path key (takePairs rest).1
    addSections rest t
  | .arrayTable path key :: rest, t => do
    let t ← t.addToArray path key (takePairs rest).1
    addSections rest t

/-- The table of a document. -/
def parse? (text : String) : Option (List (String × Value)) := do
  let chars :=
    match text.toList with
    | '\ufeff' :: rest => rest
    | chars => chars
  let lines ← readLines (chars.length + 1) chars
  let (pairs, sections) := takePairs lines
  let t ← Table.opened.addValues pairs
  let t ← addSections sections t
  some (Item.entryValues t.entries)

end CallPolicy.Toml
