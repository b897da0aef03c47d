import Minifier.Settings.Decode

/-!
# YAML values

The part of YAML that configuration files use: scalars, lists and mappings. A scalar is a text, and
only what it is read for makes it a number or a boolean; quotes keep it a text.
-/

set_option autoImplicit false

namespace Minifier

inductive Yaml where
  | scalar (isPlain : Bool) (text : String)
  | list (items : List Yaml)
  | mapping (members : List (Yaml × Yaml))

namespace Yaml

/-- The value of a place where nothing is written. -/
def empty : Yaml := scalar true ""

def plain? : Yaml → Option String
  | scalar true text => some text
  | _ => none

/-- The text of a scalar, however it is written. -/
def text? : Yaml → Option String
  | scalar _ text => some text
  | _ => none

/-- Nothing at all, or a word for it. -/
def isNull (y : Yaml) : Bool :=
  y.plain?.any (["", "~", "null", "Null", "NULL"].contains ·)

def bool? (y : Yaml) : Option Bool := do
  let text ← y.plain?
  if ["true", "True", "TRUE"].contains text then some true
  else if ["false", "False", "FALSE"].contains text then some false
  else none

/-- The value of digits in a base. -/
def digits? (base : Nat) (digits : List Char) : Option Nat := do
  guard (!digits.isEmpty)
  digits.foldlM (fun value c => do
    let digit ← Json.hexValue? c
    if digit < base then some (value * base + digit) else none) 0

/-- A decimal number has no zero in front; other bases have a mark. -/
def number? : List Char → Option Nat
  | '0' :: 'x' :: digits => digits? 16 digits
  | '0' :: 'o' :: digits => digits? 8 digits
  | '0' :: 'b' :: digits => digits? 2 digits
  | ['0'] => some 0
  | '0' :: _ => none
  | digits => digits? 10 digits

def nat? (y : Yaml) : Option Nat := do
  let text := (← y.plain?).toList
  let value ← number? (if text.head? = some '+' then text.tail else text)
  if value < UInt64.size then some value else none

def list? : Yaml → Option (List Yaml)
  | list items => some items
  | scalar true "" => some []
  | _ => none

/-- The members of a mapping, all of whose keys are scalars. -/
def fields? : Yaml → Option (Fields Yaml)
  | mapping members => do
    return .named (← members.mapM fun (key, value) => do return (← key.text?, value))
  | scalar true "" => some (.named [])
  | _ => none

/-- YAML as a notation of settings. -/
def dialect : Dialect Yaml where
  isNull := isNull
  bool? := bool?
  nat? := nat?
  text? := text?
  choice? := text?
  list? := list?
  fields? := fields?

end Yaml

end Minifier
