import CallPolicy.Decimal
import CallPolicy.Path
import CallPolicy.Text.Basic

/-!
# Command line arguments

Options have a long and mostly a short form.  A value is given in the next argument or after an
equals sign, with a short form also right behind the letter; letters of flags may be bundled.  After
`--` everything names packages.  An option that is no list must not be repeated, and an argument
that begins with a hyphen is never taken as the value of the option before it, a lone hyphen
excepted.

Arguments are read from left to right; the first fault ends the reading, and so does a request for
the version or for help.

## Termination

Reading is structural in the arguments, and in the letters of a bundle.
-/

namespace CallPolicy.CommandLine

/-- How a report is printed. -/
inductive Format where
  | text
  | json
  | summary
deriving DecidableEq, Repr, Inhabited

/-- The settings given on the command line. -/
structure Arguments where
  specs : List String := []
  printAll : Bool := false
  /-- The denylist as JSON text. -/
  denylistText : Option String := none
  configPath : Option Path := none
  format : Option Format := none
  exclude : List String := []
  jobs : Option Nat := none
  dir : Option Path := none
  /-- A log is asked for.  It carries the time of each of its lines and is left out here. -/
  verbose : Bool := false
deriving DecidableEq, Repr, Inhabited

/-- What the command line asks for. -/
inductive Request where
  | run (arguments : Arguments)
  | version
  | help
  /-- The arguments are at fault. -/
  | misuse
deriving DecidableEq, Repr

/-- The options that take no value. -/
inductive Flag where
  | printAll
  | verbose
  | version
  | help
deriving DecidableEq, Repr

/-- The options that take a value. -/
inductive Setting where
  | denylistText
  | configPath
  | format
  | exclude
  | jobs
  | dir
deriving DecidableEq, Repr

/-- An option. -/
inductive Switch where
  | flag (flag : Flag)
  | setting (setting : Setting)
deriving DecidableEq, Repr

/-- The option with the given long form. -/
def Switch.ofLong? : String → Option Switch
  | "print-all" => some (.flag .printAll)
  | "verbose" => some (.flag .verbose)
  | "version" => some (.flag .version)
  | "help" => some (.flag .help)
  | "config-json" => some (.setting .denylistText)
  | "config" => some (.setting .configPath)
  | "format" => some (.setting .format)
  | "exclude" => some (.setting .exclude)
  | "jobs" => some (.setting .jobs)
  | "dir" => some (.setting .dir)
  | _ => none

/-- The option with the given short form. -/
def Switch.ofShort? : Char → Option Switch
  | 'v' => some (.flag .verbose)
  | 'V' => some (.flag .version)
  | 'h' => some (.flag .help)
  | 'c' => some (.setting .configPath)
  | 'f' => some (.setting .format)
  | 'e' => some (.setting .exclude)
  | 'j' => some (.setting .jobs)
  | 'C' => some (.setting .dir)
  | _ => none

/-! ## Single settings -/

/-- The format with the given name. -/
def Format.ofName? : String → Option Format
  | "text" => some .text
  | "json" => some .json
  | "summary" => some .summary
  | _ => none

/-- A path that is not empty. -/
def path? (text : String) : Option Path :=
  if text.isEmpty then none else some ⟨text⟩

/-- A natural number below 2^64 in decimal digits, with an optional plus sign. -/
def count? (text : String) : Option Nat :=
  let digits := (Text.after? ['+'] text.toList).getD text.toList
  if !digits.isEmpty && digits.all Char.isDigit && Decimal.value digits ≤ Decimal.maxWord then
    some (Decimal.value digits)
  else none

/-- The value for a setting that must not have been given before. -/
def once {α : Type} (old : Option α) (new : Option α) : Option (Option α) :=
  if old.isSome then none else new.map some

/-- The arguments with a setting. -/
def Arguments.set (a : Arguments) (setting : Setting) (value : String) : Option Arguments :=
  match setting with
  | .denylistText => (once a.denylistText (some value)).map fun v => { a with denylistText := v }
  | .configPath => (once a.configPath (path? value)).map fun v => { a with configPath := v }
  | .format => (once a.format (Format.ofName? value)).map fun v => { a with format := v }
  | .exclude => some { a with exclude := a.exclude ++ [value] }
  | .jobs => (once a.jobs (count? value)).map fun v => { a with jobs := v }
  | .dir => (once a.dir (path? value)).map fun v => { a with dir := v }

/-- The state of the reading: what was given so far, or what ends the reading. -/
abbrev Reading := Except Request Arguments

/-- The arguments with a setting, or a fault. -/
def Arguments.read (a : Arguments) (setting : Setting) (value : String) : Reading :=
  match a.set setting value with
  | some a => .ok a
  | none => .error .misuse

/-- The arguments with a flag. -/
def Arguments.raise (a : Arguments) : Flag → Reading
  | .printAll => if a.printAll then .error .misuse else .ok { a with printAll := true }
  | .verbose => if a.verbose then .error .misuse else .ok { a with verbose := true }
  | .version => .error .version
  | .help => .error .help

/-! ## Arguments in a row -/

/-- What an argument leads to: settings so far, and a setting whose value is in the next
argument. -/
abbrev Step := Except Request (Arguments × Option Setting)

/-- A bundle of letters: flags, and at its end a setting with or without its value. -/
def readLetters (a : Arguments) : List Char → Step
  | [] => .ok (a, none)
  | c :: rest =>
    match Switch.ofShort? c with
    | none => .error .misuse
    | some (.flag flag) =>
      match a.raise flag with
      | .error e => .error e
      | .ok a => readLetters a rest
    | some (.setting setting) =>
      -- what is left of the bundle is the value
      match rest with
      | [] => .ok (a, some setting)
      | '=' :: value => (a.read setting (String.ofList value)).map (·, none)
      | value => (a.read setting (String.ofList value)).map (·, none)

/-- A long form, with or without a value after an equals sign. -/
def readLong (a : Arguments) (text : List Char) : Step :=
  let name := String.ofList (text.takeWhile (· != '='))
  let value := (text.dropWhile (· != '=')).tail?
  match Switch.ofLong? name, value with
  | some (.flag flag), none => (a.raise flag).map (·, none)
  | some (.setting setting), some value =>
    (a.read setting (String.ofList value)).map (·, none)
  | some (.setting setting), none => .ok (a, some setting)
  | _, _ => .error .misuse

/-- The argument looks like an option. -/
def isSwitch (arg : String) : Bool :=
  match arg.toList with
  | '-' :: _ :: _ => true
  | _ => false

/-- Reads the arguments from left to right, where `pending` is a setting that waits for its
value. -/
def readAll (a : Arguments) (pending : Option Setting) : List String → Reading
  | [] => if pending.isSome then .error .misuse else .ok a
  | arg :: rest =>
    match pending with
    | some setting =>
      -- a value that is missing is noticed at the next option
      if isSwitch arg then .error .misuse
      else
        match a.read setting arg with
        | .error e => .error e
        | .ok a => readAll a none rest
    | none =>
      match arg.toList with
      | ['-', '-'] => .ok { a with specs := a.specs ++ rest }
      | '-' :: '-' :: text =>
        match readLong a text with
        | .error e => .error e
        | .ok (a, pending) => readAll a pending rest
      | '-' :: c :: letters =>
        match readLetters a (c :: letters) with
        | .error e => .error e
        | .ok (a, pending) => readAll a pending rest
      | _ => readAll { a with specs := a.specs ++ [arg] } none rest

/-- What a command line asks for. -/
def Request.parse (args : List String) : Request :=
  match readAll {} none args with
  | .ok arguments => .run arguments
  | .error request => request

end CallPolicy.CommandLine
