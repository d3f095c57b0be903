/-
# Reading TOML

A document is a list of lines, each a header, a setting, a comment, or blank. Reading turns
the text into statements and then builds the table that they describe. A text that breaks
the grammar or says something twice is no document. Dates and times are not read.
-/

import BinaryPatch.Text.Numeral
import BinaryPatch.Toml.Value

namespace BinaryPatch
namespace Toml

/-! ## Blanks and comments -/

/-- A text without the spaces and tabs at its start. -/
def skipBlanks (s : List Char) : List Char := s.dropWhile fun c => c == ' ' || c == '\t'

/-- Whether a character may stand in a comment or a string on one line. -/
def isPlain (c : Char) : Bool := c == '\t' || (0x20 ≤ c.toNat && c.toNat != 0x7F)

/-- A text without the comment at its start, if there is one. -/
def skipComment : List Char → List Char
  | '#' :: rest => rest.dropWhile isPlain
  | s => s

/-- A text without the line end at its start. -/
def skipLineEnd? : List Char → Option (List Char)
  | '\n' :: rest => some rest
  | '\r' :: '\n' :: rest => some rest
  | _ => none

/-- A text without the rest of its first line, on which nothing but a comment may stand. -/
def endLine? (s : List Char) : Option (List Char) :=
  match skipComment (skipBlanks s) with
  | [] => some []
  | s => skipLineEnd? s

/-- A text without the blanks, comments and line ends at its start. -/
def skipLines : (fuel : Nat) → List Char → List Char
  | 0, s => s
  | fuel + 1, s =>
    let s := skipComment (skipBlanks s)
    match skipLineEnd? s with
    | some rest => skipLines fuel rest
    | none => s

/-! ## Strings -/

/-- The character of a hexadecimal escape of some digits. -/
def readCodePoint (count : Nat) (s : List Char) : Option (Char × List Char) := do
  let digits := s.take count
  if digits.length = count ∧ digits.all (fun c => (Text.hexDigit? c).isSome) then
    let n := digits.foldl (fun n c => n * 16 + ((Text.hexDigit? c).getD 0)) 0
    if n.isValidChar then some (Char.ofNat n, s.drop count) else none
  else none

/-- Read an escape behind its backslash. -/
def readEscape : List Char → Option (Char × List Char)
  | 'b' :: rest => some ('\x08', rest)
  | 't' :: rest => some ('\t', rest)
  | 'n' :: rest => some ('\n', rest)
  | 'f' :: rest => some ('\x0c', rest)
  | 'r' :: rest => some ('\r', rest)
  | '"' :: rest => some ('"', rest)
  | '\\' :: rest => some ('\\', rest)
  | 'u' :: rest => readCodePoint 4 rest
  | 'U' :: rest => readCodePoint 8 rest
  | _ => none

/-- Read a string on one line behind its opening double quote. -/
def readBasic : (fuel : Nat) → List Char → Option (List Char × List Char)
  | 0, _ => none
  | _ + 1, [] => none
  | _ + 1, '"' :: rest => some ([], rest)
  | fuel + 1, '\\' :: rest => do
    let (c, rest) ← readEscape rest
    let (cs, rest) ← readBasic fuel rest
    return (c :: cs, rest)
  | fuel + 1, c :: rest =>
    if isPlain c then do
      let (cs, rest) ← readBasic fuel rest
      return (c :: cs, rest)
    else none

/-- Read a string on one line behind its opening single quote. -/
def readLiteral (s : List Char) : Option (List Char × List Char) :=
  let (cs, rest) := s.span fun c => isPlain c && c != '\''
  match rest with
  | '\'' :: rest => some (cs, rest)
  | _ => none

/-- What follows three closing quotes, of which up to two more belong to the string. -/
def closeThree? (quote : Char) (s : List Char) : Option (List Char) :=
  let quotes := s.takeWhile (· == quote)
  if 3 ≤ quotes.length then some (s.drop (min quotes.length 5)) else none

/-- Pass over a string on several lines behind its opening quotes. -/
def skipLong (quote : Char) : (fuel : Nat) → List Char → Option (List Char)
  | 0, _ => none
  | fuel + 1, s =>
    match closeThree? quote s with
    | some rest => some rest
    | none =>
      match s with
      | [] => none
      | c :: rest =>
        if c = '\\' ∧ quote = '"' then
          match readEscape rest with
          | some (_, rest) => skipLong quote fuel rest
          | none => do
            let rest ← skipLineEnd? (skipBlanks rest)
            skipLong quote fuel rest
        else if isPlain c then skipLong quote fuel rest
        else do
          let rest ← skipLineEnd? s
          skipLong quote fuel rest

/-! ## Keys -/

/-- Whether a character may stand in a key without quotes. -/
def isBare (c : Char) : Bool := c.isAlphanum || c == '_' || c == '-'

/-- Read one part of a key. -/
def readPart : List Char → Option (String × List Char)
  | '"' :: rest => (readBasic (rest.length + 1) rest).map fun (cs, rest) => (.ofList cs, rest)
  | '\'' :: rest => (readLiteral rest).map fun (cs, rest) => (.ofList cs, rest)
  | s =>
    let (cs, rest) := s.span isBare
    if cs.isEmpty then none else some (.ofList cs, rest)

/-- Read a key: parts with dots between them, around which there may be blanks. -/
def readKey : (fuel : Nat) → List Char → Option (List String × List Char)
  | 0, _ => none
  | fuel + 1, s => do
    let (part, rest) ← readPart (skipBlanks s)
    match skipBlanks rest with
    | '.' :: rest => do
      let (parts, rest) ← readKey fuel rest
      return (part :: parts, rest)
    | rest => return ([part], rest)

/-- A key as the path to a table and the last part. -/
def splitKey (parts : List String) : List String × String :=
  (parts.dropLast, parts.getLastD "")

/-! ## Numbers -/

/-- Whether digits stand at either end and no two underscores beside each other. -/
def isSpaced : List Char → Bool
  | [] => false
  | [c] => c != '_'
  | c :: rest => (c != '_' || rest.head? != some '_') && isSpaced rest

/-- Read digits, single underscores between which are passed over. -/
def readDigits (isDigit : Char → Bool) (s : List Char) : Option (List Char × List Char) :=
  let (cs, rest) := s.span fun c => isDigit c || c == '_'
  if cs.head? != some '_' && isSpaced cs then some (cs.filter (· != '_'), rest) else none

/-- The value of digits in a base. -/
def digitsValue (base : Nat) (ds : List Char) : Nat :=
  ds.foldl (fun n c => n * base + ((Text.hexDigit? c).getD 0)) 0

/-- An integer of 64 bits. -/
def word? (n : Int) : Option Value :=
  if Int64.minValue.toInt ≤ n ∧ n ≤ Int64.maxValue.toInt then some (.int n) else none

/-- Read an integer in another base than ten. -/
def readBased (base : Nat) (isDigit : Char → Bool) (s : List Char) :
    Option (Value × List Char) := do
  let (ds, rest) ← readDigits isDigit s
  return (← word? (digitsValue base ds), rest)

/-- Read the fraction and exponent of a number. There is nothing to read where neither
stands. -/
def skipFraction (s : List Char) : Option (List Char) :=
  let exponent := fun (s : List Char) =>
    match s with
    | c :: rest =>
      if c = 'e' ∨ c = 'E' then
        let rest :=
          match rest with
          | '+' :: rest | '-' :: rest => rest
          | rest => rest
        (readDigits Char.isDigit rest).map Prod.snd
      else some s
    | [] => some []
  match s with
  | '.' :: rest => do
    let (_, rest) ← readDigits Char.isDigit rest
    exponent rest
  | s => exponent s

/-- Read a decimal number behind its sign. -/
def readDecimal (sign : Int) (s : List Char) : Option (Value × List Char) := do
  let (ds, rest) ←
    match s with
    | '0' :: rest => some (['0'], rest)
    | s => readDigits Char.isDigit s
  let behind ← skipFraction rest
  if behind.length < rest.length then return (.scalar, behind)
  else return (← word? (sign * digitsValue 10 ds), rest)

/-- Read a number. -/
def readNumber : List Char → Option (Value × List Char)
  | '0' :: 'x' :: rest => readBased 16 (fun c => (Text.hexDigit? c).isSome) rest
  | '0' :: 'o' :: rest => readBased 8 (fun c => '0' ≤ c && c ≤ '7') rest
  | '0' :: 'b' :: rest => readBased 2 (fun c => c == '0' || c == '1') rest
  | '+' :: 'i' :: 'n' :: 'f' :: rest | '-' :: 'i' :: 'n' :: 'f' :: rest
  | 'i' :: 'n' :: 'f' :: rest => some (.scalar, rest)
  | '+' :: 'n' :: 'a' :: 'n' :: rest | '-' :: 'n' :: 'a' :: 'n' :: rest
  | 'n' :: 'a' :: 'n' :: rest => some (.scalar, rest)
  | '+' :: rest => readDecimal 1 rest
  | '-' :: rest => readDecimal (-1) rest
  | s => readDecimal 1 s

/-! ## Values -/

mutual

/-- Read a value. -/
def readValue : (fuel : Nat) → List Char → Option (Value × List Char)
  | 0, _ => none
  | fuel + 1, s =>
    match s with
    | '"' :: '"' :: '"' :: rest =>
      (skipLong '"' (rest.length + 1) rest).map fun rest => (.scalar, rest)
    | '\'' :: '\'' :: '\'' :: rest =>
      (skipLong '\'' (rest.length + 1) rest).map fun rest => (.scalar, rest)
    | '"' :: rest => (readBasic (rest.length + 1) rest).map fun (_, rest) => (.scalar, rest)
    | '\'' :: rest => (readLiteral rest).map fun (_, rest) => (.scalar, rest)
    | 't' :: 'r' :: 'u' :: 'e' :: rest => some (.scalar, rest)
    | 'f' :: 'a' :: 'l' :: 's' :: 'e' :: rest => some (.scalar, rest)
    | '[' :: rest => (readItems fuel rest).map fun (items, rest) => (.array items, rest)
    | '\x7b' :: rest =>
      match skipBlanks rest with
      | '\x7d' :: rest => some (.table .inline [], rest)
      | rest => (readInline fuel [] rest).map fun (fs, rest) => (.table .inline fs, rest)
    | s => readNumber s

/-- Read the items of an array. A comma may follow the last. -/
def readItems : (fuel : Nat) → List Char → Option (List Value × List Char)
  | 0, _ => none
  | fuel + 1, s =>
    match skipLines s.length s with
    | ']' :: rest => some ([], rest)
    | s => do
      let (item, rest) ← readValue fuel s
      match skipLines rest.length rest with
      | ',' :: rest => do
        let (items, rest) ← readItems fuel rest
        return (item :: items, rest)
      | ']' :: rest => return ([item], rest)
      | _ => none

/-- Read the fields of an inline table that has at least one, after those already read. -/
def readInline : (fuel : Nat) → Fields → List Char → Option (Fields × List Char)
  | 0, _, _ => none
  | fuel + 1, fields, s => do
    let (key, rest) ← readKey s.length s
    match rest with
    | '=' :: rest => do
      let (v, rest) ← readValue fuel (skipBlanks rest)
      let (path, name) := splitKey key
      let fields ← fields.assign path name v
      match skipBlanks rest with
      | ',' :: rest => readInline fuel fields rest
      | '\x7d' :: rest => return (fields, rest)
      | _ => none
    | _ => none

end

/-! ## Documents -/

/-- One line of a document. -/
inductive Statement where
  | header (path : List String) (name : String)
  | element (path : List String) (name : String)
  | setting (path : List String) (name : String) (value : Value)

/-- Read one statement. -/
def readStatement (s : List Char) : Option (Statement × List Char) :=
  match s with
  | '[' :: '[' :: rest => do
    let (key, rest) ← readKey rest.length rest
    match rest with
    | ']' :: ']' :: rest =>
      let (path, name) := splitKey key
      return (.element path name, rest)
    | _ => none
  | '[' :: rest => do
    let (key, rest) ← readKey rest.length rest
    match rest with
    | ']' :: rest =>
      let (path, name) := splitKey key
      return (.header path name, rest)
    | _ => none
  | s => do
    let (key, rest) ← readKey s.length s
    match rest with
    | '=' :: rest => do
      let (v, rest) ← readValue (rest.length + 1) (skipBlanks rest)
      let (path, name) := splitKey key
      return (.setting path name v, rest)
    | _ => none

/-- Read the statements of a document, each of which ends its line. -/
def readStatements : (fuel : Nat) → List Char → Option (List Statement)
  | 0, s => if s.isEmpty then some [] else none
  | fuel + 1, s =>
    match skipLines s.length s with
    | [] => some []
    | s => do
      let (statement, rest) ← readStatement s
      let statements ← readStatements fuel (← endLine? rest)
      return statement :: statements

/-- Carry out the statements that follow a header, whose table `here` names. -/
def build (fields : Fields) (here : List String) : List Statement → Option Fields
  | [] => some fields
  | .header path name :: rest => do
    build (← fields.openTable path name) (path ++ [name]) rest
  | .element path name :: rest => do
    build (← fields.openElement path name) (path ++ [name]) rest
  | .setting path name v :: rest => do
    build (← fields.within (fun inside => inside.assign path name v) here) here rest

/-- Read a document. A byte order mark may stand in front of it. -/
def parse? (text : String) : Option Fields := do
  let s :=
    match text.toList with
    | '\uFEFF' :: rest => rest
    | s => s
  build [] [] (← readStatements (s.length + 1) s)

end Toml
end BinaryPatch
