import Minifier.Json.Basic

/-!
# Reading JSON

`Json.read?` reads one value with white space around it, and refuses everything else: text after
the value, a comma before a closing bracket, a number with a leading zero, a control character in a
string. Each reader answers a value and the characters that are left.
-/

set_option autoImplicit false

namespace Minifier.Json

def isSpace (c : Char) : Bool := c = ' ' || c = '\n' || c = '\t' || c = '\r'

def skipSpace (text : List Char) : List Char := text.dropWhile isSpace

/-! ## Strings -/

def hexValue? (c : Char) : Option Nat :=
  if '0' ≤ c ∧ c ≤ '9' then some (c.toNat - '0'.toNat)
  else if 'a' ≤ c ∧ c ≤ 'f' then some (c.toNat - 'a'.toNat + 10)
  else if 'A' ≤ c ∧ c ≤ 'F' then some (c.toNat - 'A'.toNat + 10)
  else none

/-- A character as it stands, or the UTF-16 unit of a `\u` escape. -/
inductive StringUnit where
  | char (c : Char)
  | unit (value : Nat)

/-- The character after a backslash, `\u` aside. -/
def escape? : Char → Option Char
  | '"' => some '"'
  | '\\' => some '\\'
  | '/' => some '/'
  | 'b' => some '\x08'
  | 'f' => some '\x0c'
  | 'n' => some '\n'
  | 'r' => some '\r'
  | 't' => some '\t'
  | _ => none

/-- The units of a string up to its closing quote. -/
def readUnits : List Char → Option (List StringUnit × List Char)
  | [] => none
  | '"' :: rest => some ([], rest)
  | '\\' :: 'u' :: a :: b :: c :: d :: rest => do
    let value := (((← hexValue? a) * 16 + (← hexValue? b)) * 16 + (← hexValue? c)) * 16 +
      (← hexValue? d)
    let (units, rest) ← readUnits rest
    return (.unit value :: units, rest)
  | '\\' :: c :: rest => do
    let escaped ← escape? c
    let (units, rest) ← readUnits rest
    return (.char escaped :: units, rest)
  | c :: rest =>
    if c.toNat < 0x20 then none
    else do
      let (units, rest) ← readUnits rest
      return (.char c :: units, rest)

/-- The text that units stand for; none if a surrogate stands alone. -/
def joinUnits : List StringUnit → Option (List Char)
  | [] => some []
  | .char c :: units => (c :: ·) <$> joinUnits units
  | .unit high :: .unit low :: units =>
    if 0xD800 ≤ high ∧ high < 0xDC00 then
      if 0xDC00 ≤ low ∧ low < 0xE000 then
        (Char.ofNat (0x10000 + (high - 0xD800) * 0x400 + (low - 0xDC00)) :: ·) <$> joinUnits units
      else none
    else if 0xDC00 ≤ high ∧ high < 0xE000 then none
    else (Char.ofNat high :: ·) <$> joinUnits (.unit low :: units)
  | .unit value :: units =>
    if 0xD800 ≤ value ∧ value < 0xE000 then none
    else (Char.ofNat value :: ·) <$> joinUnits units

/-! ## Numbers -/

def digitsValue (digits : List Char) : Nat :=
  digits.foldl (fun n c => n * 10 + (c.toNat - '0'.toNat)) 0

/-- A fraction, if there is one. A point without digits is refused. -/
def readFraction (text : List Char) : Option (List Char × List Char) :=
  match text with
  | '.' :: rest =>
    let digits := rest.takeWhile Char.isDigit
    if digits.isEmpty then none else some ('.' :: digits, rest.dropWhile Char.isDigit)
  | _ => some ([], text)

/-- An exponent, if there is one. A mark without digits is refused. -/
def readExponent (text : List Char) : Option (List Char × List Char) :=
  let after (mark : List Char) (rest : List Char) : Option (List Char × List Char) :=
    let digits := rest.takeWhile Char.isDigit
    if digits.isEmpty then none else some (mark ++ digits, rest.dropWhile Char.isDigit)
  match text with
  | 'e' :: '+' :: rest | 'E' :: '+' :: rest => after ['e', '+'] rest
  | 'e' :: '-' :: rest | 'E' :: '-' :: rest => after ['e', '-'] rest
  | 'e' :: rest | 'E' :: rest => after ['e'] rest
  | _ => some ([], text)

/-- Reads a number from after its sign. -/
def readNumber (negative : Bool) (text : List Char) : Option (Json × List Char) := do
  let digits := text.takeWhile Char.isDigit
  if digits.isEmpty || (digits.head? = some '0' && 1 < digits.length) then none
  else
    let (fraction, rest) ← readFraction (text.dropWhile Char.isDigit)
    let (exponent, rest) ← readExponent rest
    let size := digitsValue digits
    let isInteger := fraction.isEmpty && exponent.isEmpty &&
      (if negative then size ≠ 0 && size ≤ UInt64.size / 2 else size < UInt64.size)
    if isInteger then return (.integer (if negative then -(size : Int) else size), rest)
    else
      let sign := if negative then ['-'] else []
      return (.decimal (String.ofList (sign ++ digits ++ fraction ++ exponent)), rest)

/-! ## Values -/

mutual

def readValue : Nat → List Char → Option (Json × List Char)
  | 0, _ => none
  | fuel + 1, text =>
    match skipSpace text with
    | 'n' :: 'u' :: 'l' :: 'l' :: rest => some (.null, rest)
    | 't' :: 'r' :: 'u' :: 'e' :: rest => some (.bool true, rest)
    | 'f' :: 'a' :: 'l' :: 's' :: 'e' :: rest => some (.bool false, rest)
    | '"' :: rest => do
      let (units, rest) ← readUnits rest
      match joinUnits units with
      | some chars => return (.string (String.ofList chars), rest)
      | none => return (.brokenString, rest)
    | '[' :: rest =>
      match skipSpace rest with
      | ']' :: rest => some (.array [], rest)
      | rest => do
        let (items, rest) ← readItems fuel rest
        return (.array items, rest)
    | '\x7b' :: rest =>
      match skipSpace rest with
      | '\x7d' :: rest => some (.object [], rest)
      | rest => do
        let (members, rest) ← readMembers fuel rest
        return (.object members, rest)
    | '-' :: rest => readNumber true rest
    | rest => readNumber false rest

/-- The items of an array, at least one, and its closing bracket. -/
def readItems : Nat → List Char → Option (List Json × List Char)
  | 0, _ => none
  | fuel + 1, text => do
    let (item, rest) ← readValue fuel text
    match skipSpace rest with
    | ',' :: rest => do
      let (items, rest) ← readItems fuel rest
      return (item :: items, rest)
    | ']' :: rest => return ([item], rest)
    | _ => none

/-- The members of an object, at least one, and its closing brace. -/
def readMembers : Nat → List Char → Option (List (String × Json) × List Char)
  | 0, _ => none
  | fuel + 1, text =>
    match skipSpace text with
    | '"' :: rest => do
      let (units, rest) ← readUnits rest
      let key ← joinUnits units
      match skipSpace rest with
      | ':' :: rest => do
        let (value, rest) ← readValue fuel rest
        let member := (String.ofList key, value)
        match skipSpace rest with
        | ',' :: rest => do
          let (members, rest) ← readMembers fuel rest
          return (member :: members, rest)
        | '\x7d' :: rest => return ([member], rest)
        | _ => none
      | _ => none
    | _ => none

end

/-- The value a text holds. Each step of the readers consumes a character, so the length of the
text, twice for brackets, is fuel enough. -/
def read? (text : String) : Option Json :=
  match readValue (2 * (text.length + 1)) text.toList with
  | some (value, rest) => if (skipSpace rest).isEmpty then some value else none
  | none => none

end Minifier.Json
