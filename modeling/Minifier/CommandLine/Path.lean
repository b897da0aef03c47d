import Minifier.Text.Split

/-!
# File paths

Paths as texts with slashes. Doubled slashes, a slash at the end and parts that are a single dot do
not count, except that a path may begin with a slash or a dot.
-/

set_option autoImplicit false

namespace Minifier.Path

/-- A part of a path that does not count, unless it is the first. -/
def isIdle (part : List Char) : Bool := part = [] || part = ['.']

/-- Parts of a path without those at the end that do not count. -/
def trimParts (parts : List (List Char)) : List (List Char) :=
  (parts.reverse.dropWhile isIdle).reverse

/-- A path split into the part that names a file or folder and the text of the path before it.
There is no such part in a path that ends in two dots, or is only a dot or a slash. -/
def split? (path : List Char) : Option (List Char × List Char) :=
  match Text.split '/' path with
  | [] => none
  | first :: rest =>
    match (trimParts rest).getLast? with
    | none => if isIdle first || first = ['.', '.'] then none else some ([], first)
    | some last =>
      if last = ['.', '.'] then none
      else
        let before := trimParts (trimParts rest).dropLast
        let folder :=
          if first.isEmpty && before.isEmpty then ['/'] else Text.join '/' (first :: before)
        some (folder, last)

def fileName? (path : List Char) : Option (List Char) := (split? path).map (·.2)

/-- The path of what a file or folder is in. -/
def parent? (path : List Char) : Option (List Char) := (split? path).map (·.1)

/-- A name in the folder at a path. -/
def join (folder name : List Char) : List Char :=
  if folder.isEmpty || folder.getLast? = some '/' then folder ++ name else folder ++ '/' :: name

/-- The last dot of a file name, with the texts before and after it. A dot at the start is part of
the name. -/
def splitName (name : List Char) : List Char × Option (List Char) :=
  let after := name.reverse.takeWhile (· ≠ '.')
  match name.reverse.dropWhile (· ≠ '.') with
  | _ :: before => if before.isEmpty then (name, none) else (before.reverse, some after.reverse)
  | [] => (name, none)

/-- The file name without its extension. -/
def stem (path : List Char) : List Char := (splitName ((fileName? path).getD [])).1

def extension? (path : List Char) : Option (List Char) := (fileName? path).bind (splitName · |>.2)

/-- The path with another file name. -/
def withFileName (path name : List Char) : List Char := join ((parent? path).getD path) name

end Minifier.Path
