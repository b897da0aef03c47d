import Minifier.CommandLine.Host
import Minifier.Text.Split

/-!
# A host in memory

Files that are a table of texts, so that a run is a function from one table to another. Paths are
relative to the top folder, and there is nothing outside it.
-/

set_option autoImplicit false

namespace Minifier

/-- Folder names from the top, and the name of the file. -/
abbrev Location := List String

/-- The files and folders of a host, and what was printed and complained about. -/
structure Memory where
  files : List (Location × String) := []
  folders : List Location := []
  printed : String := ""
  complained : String := ""

namespace Memory

/-- The locations of the folders that a location is in. -/
def foldersAround (location : Location) : List Location :=
  (List.range location.length).map location.take

def partsOf (path : String) : List String := (Text.split '/' path.toList).map String.ofList

/-- Files at paths, with the folders they are in. -/
def ofFiles (files : List (String × String)) : Memory :=
  let files := files.map fun (path, text) => (partsOf path, text)
  { files, folders := (files.flatMap fun file => foldersAround file.1).eraseDups }

/-- The files with their paths. -/
def toFiles (s : Memory) : List (String × String) :=
  s.files.map fun (location, text) => ("/".intercalate location, text)

/-- The files that are not the same in an earlier state, in the order of their paths. -/
def changedSince (s earlier : Memory) : List (String × String) :=
  (s.toFiles.filter (!earlier.toFiles.contains ·)).mergeSort (·.1 ≤ ·.1)

def file? (s : Memory) (location : Location) : Option String := s.files.lookup location

def isFolderAt (s : Memory) (location : Location) : Bool :=
  location.isEmpty || s.folders.contains location

/-- Why a location is not a folder. -/
def folderError (s : Memory) (location : Location) : FileError :=
  if (s.file? location).isSome then .notFolder else .notFound

/-- Follows the parts of a path. All but the last have to lead through folders. -/
def follow (s : Memory) (location : Location) : List String → Except FileError Location
  | [] => .ok location
  | part :: rest =>
    if !s.isFolderAt location then .error (s.folderError location)
    else if part = "" || part = "." then s.follow location rest
    else if part = ".." then
      if location.isEmpty then .error .notFound else s.follow location.dropLast rest
    else s.follow (location ++ [part]) rest

/-- The location of a path. -/
def locate (s : Memory) (path : String) : Except FileError Location :=
  if path.isEmpty || path.startsWith "/" then .error .notFound else s.follow [] (partsOf path)

def read (s : Memory) (path : String) : Except FileError String := do
  let location ← s.locate path
  if s.isFolderAt location then .error .isFolder
  else match s.file? location with
    | some text => .ok text
    | none => .error .notFound

def write (s : Memory) (path text : String) : Except FileError Memory := do
  let location ← s.locate path
  if s.isFolderAt location then .error .isFolder
  else .ok { s with files := s.files.filter (·.1 ≠ location) ++ [(location, text)] }

/-- Makes the folders along the parts of a path. -/
def makeFolders (s : Memory) (location : Location) : List String → Except FileError Memory
  | [] => .ok s
  | part :: rest =>
    if part = "" || part = "." then s.makeFolders location rest
    else if part = ".." then
      if location.isEmpty then .error .notFound else s.makeFolders location.dropLast rest
    else
      let next := location ++ [part]
      if s.isFolderAt next then s.makeFolders next rest
      else if (s.file? next).isSome then
        .error (if rest.all fun part => part = "" || part = "." then .alreadyExists else .notFolder)
      else { s with folders := s.folders ++ [next] }.makeFolders next rest

/-- The names in a folder. -/
def namesIn (s : Memory) (folder : Location) : List String :=
  ((s.files.map (·.1) ++ s.folders).filterMap fun location =>
    if folder.isPrefixOf location then location[folder.length]? else none).eraseDups

/-- At most `depth` levels of what is in a folder. -/
def entriesFrom (s : Memory) : Nat → Location → List (String × Entry)
  | 0, _ => []
  | depth + 1, folder => (s.namesIn folder).map fun name =>
    let location := folder ++ [name]
    (name, if s.isFolderAt location then .folder (s.entriesFrom depth location) else .file)

def entries (s : Memory) (path : String) : Except FileError (List (String × Entry)) := do
  let location ← s.locate path
  if s.isFolderAt location then .ok (s.entriesFrom (s.folders.length + 1) location)
  else .error (s.folderError location)

/-- A change to the files, which keeps them as they are if it fails. -/
def change (f : Memory → Except FileError Memory) : StateM Memory (Except FileError Unit) := do
  match f (← get) with
  | .ok s => do
    set s
    return .ok ()
  | .error e => return .error e

/-- The host of a run in memory. -/
def host : Host (StateM Memory) where
  isFolder path := do
    let s ← get
    return (s.locate path).toOption.any s.isFolderAt
  isThere path := do
    let s ← get
    return (s.locate path).toOption.any fun location =>
      s.isFolderAt location || (s.file? location).isSome
  entries _ path := do return (← get).entries path
  read path := do return (← get).read path
  write path text := change (·.write path text)
  makeFolders path := change fun s => s.makeFolders [] (partsOf path)
  print text := modify fun s => { s with printed := s.printed ++ text }
  complain text := modify fun s => { s with complained := s.complained ++ text }

end Memory

end Minifier
