import Minifier.Text.Escaped

/-!
# JSON values

Configuration files are JSON. A value keeps the members of an object in the order in which they
were written, repeated keys included, because a reader of settings refuses a repeated key. Numbers
that are no 64-bit integers are kept as their text: no setting takes one.

A value is written either on one line or spread over lines with two blanks for each level.
-/

set_option autoImplicit false

namespace Minifier

inductive Json where
  | null
  | bool (value : Bool)
  | integer (value : Int)
  /-- A number with a fraction or an exponent, or beyond the 64-bit integers. -/
  | decimal (text : String)
  | string (value : String)
  /-- A string with half of a surrogate pair, which stands for no text. -/
  | brokenString
  | array (items : List Json)
  | object (members : List (String × Json))
deriving Inhabited

namespace Json

/-- The first member of an object under a key, where `null` counts as absent. -/
def get? (key : String) : Json → Option Json
  | object members =>
    match members.lookup key with
    | some null => none
    | found => found
  | _ => none

def string? : Json → Option String
  | string value => some value
  | _ => none

def bool? : Json → Option Bool
  | bool value => some value
  | _ => none

/-- A number that is not negative. -/
def nat? : Json → Option Nat
  | integer value => if 0 ≤ value then some value.toNat else none
  | _ => none

def array? : Json → Option (List Json)
  | array items => some items
  | _ => none

def ofNat (n : Nat) : Json := integer n

def ofOption {α : Type} (encode : α → Json) : Option α → Json
  | none => null
  | some a => encode a

/-! ## Writing -/

/-- One character of a string value as it stands in the text. -/
def quotedChar (c : Char) : List Char :=
  if c = '"' then ['\\', '"']
  else if c = '\\' then ['\\', '\\']
  else if c = '\n' then ['\\', 'n']
  else if c = '\r' then ['\\', 'r']
  else if c = '\t' then ['\\', 't']
  else if c = '\x08' then ['\\', 'b']
  else if c = '\x0c' then ['\\', 'f']
  else if c.toNat < 0x20 then
    let digits := Text.hexDigits c.toNat
    ['\\', 'u'] ++ List.replicate (4 - digits.length) '0' ++ digits
  else [c]

def quoted (value : String) : String :=
  String.ofList ('"' :: value.toList.flatMap quotedChar ++ ['"'])

/-- The text of a value that has no parts. -/
def scalarText : Json → String
  | bool true => "true"
  | bool false => "false"
  | integer value => toString value
  | decimal text => text
  | string value => quoted value
  | _ => "null"

mutual

/-- The value on one line, without blanks. -/
def compact : Json → String
  | array items => "[" ++ compactItems items ++ "]"
  | object members => "\x7b" ++ compactMembers members ++ "\x7d"
  | scalar => scalar.scalarText

def compactItems : List Json → String
  | [] => ""
  | [item] => item.compact
  | item :: items => item.compact ++ "," ++ compactItems items

def compactMembers : List (String × Json) → String
  | [] => ""
  | [(key, value)] => quoted key ++ ":" ++ value.compact
  | (key, value) :: members => quoted key ++ ":" ++ value.compact ++ "," ++ compactMembers members

end

/-- A line break and the blanks of a level. -/
def lineBreak (level : Nat) : String := "\n" ++ String.ofList (List.replicate (2 * level) ' ')

mutual

/-- The value over several lines, as part of a value `level` levels deep. -/
def pretty (level : Nat) : Json → String
  | array [] => "[]"
  | array items => "[" ++ prettyItems (level + 1) items ++ lineBreak level ++ "]"
  | object [] => "\x7b\x7d"
  | object members => "\x7b" ++ prettyMembers (level + 1) members ++ lineBreak level ++ "\x7d"
  | scalar => scalar.scalarText

def prettyItems (level : Nat) : List Json → String
  | [] => ""
  | [item] => lineBreak level ++ item.pretty level
  | item :: items => lineBreak level ++ item.pretty level ++ "," ++ prettyItems level items

def prettyMembers (level : Nat) : List (String × Json) → String
  | [] => ""
  | [(key, value)] => lineBreak level ++ quoted key ++ ": " ++ value.pretty level
  | (key, value) :: members =>
    lineBreak level ++ quoted key ++ ": " ++ value.pretty level ++ "," ++
      prettyMembers level members

end

end Json

end Minifier
