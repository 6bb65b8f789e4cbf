import CallPolicy.Decimal
import CallPolicy.Toml.Basic

/-!
# Scalars of TOML

Strings, numbers, dates and times.  A reader takes the text and returns what it has read with the
text after it, or nothing if the text does not begin with what it reads.

## Termination

Digits are structural in the text; strings are structural in a bound on the number of steps, each of
which uses up a character.
-/

namespace CallPolicy.Toml

/-! ## Character classes -/

/-- A blank inside a line. -/
def isBlank (c : Char) : Bool :=
  c = ' ' || c = '\t'

/-- The text after blanks. -/
def skipBlanks (text : List Char) : List Char :=
  text.dropWhile isBlank

/-- A line end, and the text after it. -/
def lineEnd? : List Char → Option (List Char)
  | '\n' :: rest => some rest
  | '\r' :: '\n' :: rest => some rest
  | _ => none

/-- A character that may stand in a comment, and for itself in a string. -/
def isTextChar (c : Char) : Bool :=
  c = '\t' || (0x20 ≤ c.toNat && c.toNat ≤ 0x7E) || 0x80 ≤ c.toNat

/-- A bound on the number of steps of a reader that stays on its line. -/
def lineBound (text : List Char) : Nat :=
  (text.takeWhile (· != '\n')).length + 1

/-! ## Strings -/

/-- The value of a digit in a base up to sixteen. -/
def digitValue? (base : Nat) (c : Char) : Option Nat :=
  let value :=
    if '0' ≤ c && c ≤ '9' then c.toNat - '0'.toNat
    else if 'a' ≤ c && c ≤ 'f' then c.toNat - 'a'.toNat + 10
    else if 'A' ≤ c && c ≤ 'F' then c.toNat - 'A'.toNat + 10
    else 16
  if value < base then some value else none

/-- The value of digits in a base. -/
def digitsValue (base : Nat) (digits : List Char) : Nat :=
  digits.foldl (fun n c => n * base + (digitValue? base c).getD 0) 0

/-- The character with a number of exactly `count` hexadecimal digits. -/
def readCodePoint (count : Nat) (text : List Char) : Option (Char × List Char) :=
  let digits := text.take count
  let n := digitsValue 16 digits
  if digits.length = count && digits.all (fun c => (digitValue? 16 c).isSome) && n.isValidChar then
    some (Char.ofNat n, text.drop count)
  else none

/-- What an escape stands for, after the backslash. -/
def readEscape : List Char → Option (Char × List Char)
  | 'b' :: rest => some ('\x08', rest)
  | 't' :: rest => some ('\t', rest)
  | 'n' :: rest => some ('\n', rest)
  | 'f' :: rest => some ('\x0c', rest)
  | 'r' :: rest => some ('\r', rest)
  | '"' :: rest => some ('"', rest)
  | '\\' :: rest => some ('\\', rest)
  | 'u' :: rest => readCodePoint 4 rest
  | 'U' :: rest => readCodePoint 8 rest
  | _ => none

/-- A string in double quotes, after the opening one. -/
def readBasic : Nat → List Char → Option (List Char × List Char)
  | 0, _ => none
  | _ + 1, [] => none
  | _ + 1, '"' :: rest => some ([], rest)
  | bound + 1, '\\' :: rest => do
    let (c, rest) ← readEscape rest
    let (text, rest) ← readBasic bound rest
    some (c :: text, rest)
  | bound + 1, c :: rest =>
    if isTextChar c then (readBasic bound rest).map fun (text, rest) => (c :: text, rest) else none

/-- A string in single quotes, after the opening one. -/
def readLiteral : List Char → Option (List Char × List Char)
  | [] => none
  | '\'' :: rest => some ([], rest)
  | c :: rest =>
    if isTextChar c then (readLiteral rest).map fun (text, rest) => (c :: text, rest) else none

/-- The text after blanks and line ends. -/
def skipBlankLines : List Char → List Char
  | ' ' :: rest => skipBlankLines rest
  | '\t' :: rest => skipBlankLines rest
  | '\n' :: rest => skipBlankLines rest
  | '\r' :: '\n' :: rest => skipBlankLines rest
  | rest => rest

/-- The quotes that belong to the text before the closing three, and the text after these. -/
def closeQuotes (quote : Char) : List Char → Option (List Char × List Char)
  | a :: b :: c :: rest =>
    if a = quote && b = quote && c = quote then
      let extra := (rest.takeWhile (· == quote)).length.min 2
      some (List.replicate extra quote, rest.drop extra)
    else none
  | _ => none

/-- A string of several lines in double quotes, after the opening ones.  A backslash at the end of a
line joins it to the next text. -/
def readLongBasic : Nat → List Char → Option (List Char × List Char)
  | 0, _ => none
  | bound + 1, text =>
    match closeQuotes '"' text with
    | some closed => some closed
    | none =>
      match text with
      | [] => none
      | '\\' :: rest =>
        match lineEnd? (skipBlanks rest) with
        | some rest => readLongBasic bound (skipBlankLines rest)
        | none => do
          let (c, rest) ← readEscape rest
          let (text, rest) ← readLongBasic bound rest
          some (c :: text, rest)
      | c :: rest =>
        match lineEnd? (c :: rest) with
        | some rest => (readLongBasic bound rest).map fun (text, rest) => ('\n' :: text, rest)
        | none =>
          if isTextChar c then
            (readLongBasic bound rest).map fun (text, rest) => (c :: text, rest)
          else none

/-- A string of several lines in single quotes, after the opening ones. -/
def readLongLiteral : Nat → List Char → Option (List Char × List Char)
  | 0, _ => none
  | bound + 1, text =>
    match closeQuotes '\'' text with
    | some closed => some closed
    | none =>
      match text with
      | [] => none
      | c :: rest =>
        match lineEnd? (c :: rest) with
        | some rest => (readLongLiteral bound rest).map fun (text, rest) => ('\n' :: text, rest)
        | none =>
          if isTextChar c then
            (readLongLiteral bound rest).map fun (text, rest) => (c :: text, rest)
          else none

/-- The text after one line end, if there is one. -/
def skipLineEnd (text : List Char) : List Char :=
  (lineEnd? text).getD text

/-- A string on one line. -/
def readShortString : List Char → Option (List Char × List Char)
  | '"' :: rest => readBasic (lineBound rest) rest
  | '\'' :: rest => readLiteral rest
  | _ => none

/-- A string. -/
def readString : List Char → Option (List Char × List Char)
  | '"' :: '"' :: '"' :: rest => readLongBasic (rest.length + 1) (skipLineEnd rest)
  | '\'' :: '\'' :: '\'' :: rest => readLongLiteral (rest.length + 1) (skipLineEnd rest)
  | text => readShortString text

/-! ## Numbers -/

/-- The rest of a number in digits, where an underscore may stand between two of them. -/
def moreDigits (base : Nat) : List Char → List Char × List Char
  | [] => ([], [])
  | '_' :: c :: rest =>
    if (digitValue? base c).isSome then
      let (digits, rest) := moreDigits base rest
      (c :: digits, rest)
    else ([], '_' :: c :: rest)
  | c :: rest =>
    if (digitValue? base c).isSome then
      let (digits, rest) := moreDigits base rest
      (c :: digits, rest)
    else ([], c :: rest)

/-- At least one digit, with underscores between digits. -/
def readDigits (base : Nat) : List Char → Option (List Char × List Char)
  | c :: rest =>
    if (digitValue? base c).isSome then
      let (digits, rest) := moreDigits base rest
      some (c :: digits, rest)
    else none
  | [] => none

/-- A decimal number without sign and without leading zeros. -/
def readDecimal : List Char → Option (List Char × List Char)
  | '0' :: rest => some (['0'], rest)
  | text => readDigits 10 text

/-- A sign, if there is one, and whether it is negative. -/
def readSign : List Char → Bool × List Char
  | '+' :: rest => (false, rest)
  | '-' :: rest => (true, rest)
  | text => (false, text)

/-- The largest integer. -/
def maxInteger : Nat := 9223372036854775807

/-- An integer in the range of 64 bits. -/
def integer? (negative : Bool) (value : Nat) : Option Value :=
  if negative then
    if value ≤ maxInteger + 1 then some (.integer (-(value : Int))) else none
  else if value ≤ maxInteger then some (.integer value)
  else none

/-- The digits after a point, if there is one. -/
def readFraction : List Char → Option (List Char × List Char)
  | '.' :: rest => readDigits 10 rest
  | rest => some ([], rest)

/-- The value of the exponent, if there is one. -/
def readExponent : List Char → Option (Option Int × List Char)
  | c :: rest =>
    if c = 'e' || c = 'E' then
      let (negative, rest) := readSign rest
      (readDigits 10 rest).map fun (digits, rest) =>
        let value : Int := digitsValue 10 digits
        (some (if negative then -value else value), rest)
    else some (none, c :: rest)
  | [] => some (none, [])

/-- A decimal integer, or a number with a point or an exponent.  A positive one beyond the range of
double precision is refused. -/
def readDecimalNumber (text : List Char) : Option (Value × List Char) := do
  let (negative, rest) := readSign text
  let (whole, rest) ← readDecimal rest
  let (fraction, rest) ← readFraction rest
  let (exponent, rest) ← readExponent rest
  if fraction.isEmpty && exponent.isNone then
    let value ← integer? negative (digitsValue 10 whole)
    some (value, rest)
  else
    let power := exponent.getD 0 - (fraction.length : Int)
    if !negative && Decimal.overflows (digitsValue 10 (whole ++ fraction)) power then none
    else some (.float (String.ofList (text.take (text.length - rest.length))), rest)

/-- A number in another base than ten. -/
def readBased (base : Nat) (text : List Char) : Option (Value × List Char) := do
  let (digits, rest) ← readDigits base text
  let value ← integer? false (digitsValue base digits)
  some (value, rest)

/-- An infinity, or no number at all. -/
def readSpecial (text : List Char) : Option (Value × List Char) :=
  match (readSign text).2 with
  | 'i' :: 'n' :: 'f' :: rest => some (.float "inf", rest)
  | 'n' :: 'a' :: 'n' :: rest => some (.float "nan", rest)
  | _ => none

/-- A number. -/
def readNumber : List Char → Option (Value × List Char)
  | '0' :: 'x' :: rest => readBased 16 rest
  | '0' :: 'o' :: rest => readBased 8 rest
  | '0' :: 'b' :: rest => readBased 2 rest
  | text => (readSpecial text).or (readDecimalNumber text)

/-! ## Dates and times -/

/-- A number of exactly `count` digits, at least `low` and at most `high`. -/
def readFixed (count low high : Nat) (text : List Char) : Option (Nat × List Char) :=
  let digits := text.take count
  let n := digitsValue 10 digits
  if digits.length = count && digits.all Char.isDigit && low ≤ n && n ≤ high then
    some (n, text.drop count)
  else none

/-- The text after a character that must be there. -/
def expect (c : Char) : List Char → Option (List Char)
  | d :: rest => if c = d then some rest else none
  | [] => none

/-- A number with at least `count` digits. -/
def padded (count n : Nat) : String :=
  let digits := Nat.toDigits 10 n
  String.ofList (List.replicate (count - digits.length) '0' ++ digits)

/-- The number of days in a month. -/
def daysInMonth (year month : Nat) : Nat :=
  if month = 2 then
    if year % 4 = 0 && (year % 100 ≠ 0 || year % 400 = 0) then 29 else 28
  else if month = 4 || month = 6 || month = 9 || month = 11 then 30
  else 31

/-- A date, in its normal form. -/
def readDate (text : List Char) : Option (String × List Char) := do
  let (year, rest) ← readFixed 4 0 9999 text
  let rest ← expect '-' rest
  let (month, rest) ← readFixed 2 1 12 rest
  let rest ← expect '-' rest
  let (day, rest) ← readFixed 2 1 (daysInMonth year month) rest
  some (padded 4 year ++ "-" ++ padded 2 month ++ "-" ++ padded 2 day, rest)

/-- The fraction of a second, in its normal form: nine digits at most, without zeros at the end. -/
def readSecondFraction : List Char → Option (String × List Char)
  | '.' :: rest =>
    let digits := rest.takeWhile Char.isDigit
    if digits.isEmpty then none
    else
      let kept := ((digits.take 9).reverse.dropWhile (· == '0')).reverse
      some (if kept.isEmpty then "" else "." ++ String.ofList kept, rest.dropWhile Char.isDigit)
  | rest => some ("", rest)

/-- A time of day, in its normal form. -/
def readTime (text : List Char) : Option (String × List Char) := do
  let (hour, rest) ← readFixed 2 0 23 text
  let rest ← expect ':' rest
  let (minute, rest) ← readFixed 2 0 59 rest
  let rest ← expect ':' rest
  let (second, rest) ← readFixed 2 0 60 rest
  let (fraction, rest) ← readSecondFraction rest
  some (padded 2 hour ++ ":" ++ padded 2 minute ++ ":" ++ padded 2 second ++ fraction, rest)

/-- The offset of a time, in its normal form; nothing if there is none. -/
def readOffset : List Char → Option (String × List Char)
  | 'Z' :: rest => some ("Z", rest)
  | 'z' :: rest => some ("Z", rest)
  | c :: rest =>
    if c = '+' || c = '-' then do
      let (hour, rest) ← readFixed 2 0 23 rest
      let rest ← expect ':' rest
      let (minute, rest) ← readFixed 2 0 59 rest
      let sign := if c = '-' && (hour ≠ 0 || minute ≠ 0) then "-" else "+"
      some (sign ++ padded 2 hour ++ ":" ++ padded 2 minute, rest)
    else some ("", c :: rest)
  | [] => some ("", [])

/-- A date with a time after it. -/
def readDateTime (text : List Char) : Option (String × List Char) := do
  let (date, rest) ← readDate text
  match rest with
  | c :: after =>
    if c = 'T' || c = 't' || c = ' ' then
      match readTime after with
      | some (time, rest) =>
        let (offset, rest) ← readOffset rest
        some (date ++ "T" ++ time ++ offset, rest)
      | none => some (date, rest)
    else some (date, rest)
  | [] => some (date, rest)

/-- A date, a time or both. -/
def readMoment (text : List Char) : Option (Value × List Char) :=
  ((readDateTime text).or (readTime text)).map fun (moment, rest) => (.moment moment, rest)

end CallPolicy.Toml
