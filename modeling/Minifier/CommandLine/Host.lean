/-!
# Hosts

What a run asks of the machine it runs on. The run itself is written for any host, so that it can
be looked at without a machine.
-/

set_option autoImplicit false

namespace Minifier

/-- Why a file could not be read or written. -/
inductive FileError where
  | notFound
  | alreadyExists
  | notFolder
  | isFolder
  | other (text : String)
deriving DecidableEq, Repr

def FileError.text : FileError → String
  | notFound => "No such file or directory (os error 2)"
  | alreadyExists => "File exists (os error 17)"
  | notFolder => "Not a directory (os error 20)"
  | isFolder => "Is a directory (os error 21)"
  | other text => text

/-- Something in a folder. -/
inductive Entry where
  | file
  | folder (entries : List (String × Entry))
  | other

/-- Files and two streams of text. -/
structure Host (m : Type → Type) where
  isFolder : String → m Bool
  isThere : String → m Bool
  /-- What is in a folder, in any order. Folders whose names are not wanted may look empty. -/
  entries : (String → Bool) → String → m (Except FileError (List (String × Entry)))
  read : String → m (Except FileError String)
  write : String → String → m (Except FileError Unit)
  /-- Makes a folder and those around it, unless they are there. -/
  makeFolders : String → m (Except FileError Unit)
  print : String → m Unit
  complain : String → m Unit

end Minifier
