import Minifier.CommandLine.Run

/-!
# The program

The command line on a real machine.
-/

set_option autoImplicit false

namespace Minifier

/-- The error that the system gave, under its number, which some calls give as a negative one. -/
def FileError.ofCode (code : UInt32) (text : String) : FileError :=
  let code := if code < 0x80000000 then code else 0 - code
  if code = 2 then .notFound
  else if code = 17 then .alreadyExists
  else if code = 20 then .notFolder
  else if code = 21 then .isFolder
  else .other text

def FileError.ofSystem (error : IO.Error) : FileError :=
  match error with
  | .noFileOrDirectory _ code _ | .inappropriateType _ code _ | .alreadyExists _ code _ =>
    .ofCode code (toString error)
  | _ => .other (toString error)

/-- Takes a step on the machine. -/
def attempt {α : Type} (step : IO α) : IO (Except FileError α) := do
  match ← step.toBaseIO with
  | .ok a => return .ok a
  | .error e => return .error (.ofSystem e)

/-- What is in a folder. Links are neither files nor folders. -/
partial def entriesAt (wanted : String → Bool) (path : String) : IO (List (String × Entry)) := do
  let found ← ((← IO.currentDir) / path).readDir
  found.toList.mapM fun item => do
    let data ← item.path.symlinkMetadata
    let entry ← match data.type with
      | .dir =>
        if wanted item.fileName then pure (.folder (← entriesAt wanted item.path.toString))
        else pure (.folder [])
      | .file => pure .file
      | _ => pure .other
    return (item.fileName, entry)

def isFolderAt (path : String) : IO Bool := do ((← IO.currentDir) / path).isDir

/-- Makes a folder, and those around it only if they turn out to be missing. -/
partial def makeFoldersAt (path : String) : IO (Except FileError Unit) := do
  match ← attempt (IO.FS.createDir path), Path.parent? path.toList with
  | .ok (), _ => return .ok ()
  | .error .notFound, some (c :: rest) => do
    match ← makeFoldersAt (String.ofList (c :: rest)) with
    | .ok () => attempt (IO.FS.createDir path)
    | .error e => return .error e
  | .error e, _ => if ← isFolderAt path then return .ok () else return .error e

/-- The machine that the program runs on. -/
def machine : Host IO where
  isFolder := isFolderAt
  isThere path := do ((← IO.currentDir) / path).pathExists
  entries wanted path := attempt (entriesAt wanted path)
  read path := attempt (IO.FS.readFile path)
  write path text := attempt (IO.FS.writeFile path text)
  makeFolders := makeFoldersAt
  print text := do
    (← IO.getStdout).putStr text
    (← IO.getStdout).flush
  complain text := do
    (← IO.getStderr).putStr text

end Minifier

def main (arguments : List String) : IO UInt32 := Minifier.run Minifier.machine arguments
