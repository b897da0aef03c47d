import Minifier.Token.Word

/-!
# Short names

The names that variables are given: all identifiers over a fixed alphabet, numbered so that shorter
ones come first. The first character varies fastest, so `a` to `$` are followed by `aa`, `ba`, ….
-/

set_option autoImplicit false

namespace Minifier.ShortName

/-- The characters that a name may start with. -/
def firstChars : List Char :=
  "abcdefghijklmnopqrstuvwxyzABCDEFGHIJKLMNOPQRSTUVWXYZ_$".toList

/-- The characters that a name may go on with. -/
def nextChars : List Char :=
  "abcdefghijklmnopqrstuvwxyzABCDEFGHIJKLMNOPQRSTUVWXYZ0123456789_$".toList

/-- The characters after the first, given what is left of the number. -/
def tail (rest : Nat) : List Char :=
  match rest with
  | 0 => []
  | n + 1 => nextChars.getD (n % 64) 'a' :: tail (n / 64)
termination_by rest
decreasing_by exact Nat.lt_succ_of_le (Nat.div_le_self n 64)

/-- The name with a number. -/
def ofIndex (index : Nat) : String :=
  String.ofList (firstChars.getD (index % 54) 'a' :: tail (index / 54))

/-- Whether a name may be given away. -/
def isFree (skip : List String) (name : String) : Bool :=
  !skip.contains name && !isReservedWord name

/-- The first free name among `fuel` names from a number on, and the number after it. -/
def nextAmong (skip : List String) : Nat → Nat → String × Nat
  | 0, index => (ofIndex index, index + 1)
  | fuel + 1, index =>
    let name := ofIndex index
    if isFree skip name then (name, index + 1) else nextAmong skip fuel (index + 1)

/-- The first free name from a number on, and the number after it. Names differ, so no more of
them are taken than there are names to skip and reserved words. -/
def next (skip : List String) (index : Nat) : String × Nat :=
  nextAmong skip (skip.length + reservedWords.length) index

/-- The shortest free name. -/
def first (skip : List String) : String := (next skip 0).1

/-- The first `count` free names from a number on. -/
def enumerate (skip : List String) : Nat → Nat → List String
  | 0, _ => []
  | count + 1, index =>
    let (name, index) := next skip index
    name :: enumerate skip count index

end Minifier.ShortName
