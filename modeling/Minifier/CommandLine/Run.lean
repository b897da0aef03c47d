import Minifier.CommandLine.Arguments
import Minifier.CommandLine.Host
import Minifier.CommandLine.Message
import Minifier.CommandLine.Path
import Minifier.Minify

/-!
# A run of the command line

All files are read and minified first, and what came of them is reported and written then, in the
order of the arguments. So no output of a run is ever read by it.
-/

set_option autoImplicit false

namespace Minifier

/-- The configuration file that is looked for where none is named. -/
def defaultConfigPath : String := "jscrunch.json"

/-! ## Files to minify -/

/-- Folders that are not looked into. -/
def isWantedFolder (name : String) : Bool :=
  name ≠ "node_modules" && name.toList.head? ≠ some '.'

/-- Whether a file in a folder is a source, by its name. -/
def isSourceName (name : String) : Bool := name.endsWith ".js" && !name.endsWith ".min.js"

/-- A name in the folder at a path. -/
def pathIn (folder name : String) : String :=
  String.ofList (Path.join folder.toList name.toList)

mutual

/-- The sources in an entry of a folder, given its path and its name. -/
def Entry.sources (path name : String) : Entry → List String
  | .file => if isSourceName name then [path] else []
  | .folder entries =>
    if isWantedFolder name then
      ((sourcesByName path entries).mergeSort (·.1 ≤ ·.1)).flatMap (·.2)
    else []
  | .other => []

/-- The sources in each entry of a folder. -/
def sourcesByName (path : String) : List (String × Entry) → List (String × List String)
  | [] => []
  | (name, entry) :: rest =>
    (name, entry.sources (pathIn path name) name) :: sourcesByName path rest

end

/-- The sources in a folder and the folders in it, in the order of their names. -/
def folderSources (path : String) (entries : List (String × Entry)) : List String :=
  ((sourcesByName path entries).mergeSort (·.1 ≤ ·.1)).flatMap (·.2)

/-- Where the output for a source goes. -/
def outputPath (config : Config) (path : String) : String :=
  let name := Path.stem path.toList ++ ".min.js".toList
  String.ofList (match config.outDir with
    | some folder => Path.join folder.toList name
    | none => Path.withFileName path.toList name)

/-! ## What came of a file -/

def Fault.message : Fault → String
  | scan e => e.message
  | parse e => e.message
  | phase e => e.message

/-- A file after minifying. -/
structure FileResult where
  path : String
  source : String
  report : Report
  /-- The output, or why there is none. -/
  output : Except String String

/-- Minifies a file that was read, or was not. -/
def FileResult.of (config : Config) (path : String) : Except FileError String → FileResult
  | .error e => ⟨path, "", #[], .error s!"Failed to read file: {e.text}"⟩
  | .ok source =>
    let outcome := minify config.settings source
    ⟨path, source, outcome.report, outcome.code.mapError (·.message)⟩

def FileResult.isFailed (r : FileResult) : Bool := r.output.toOption.isNone

/-- What a file puts on the error stream: its diagnostics, and the reason why there is no output
unless they give it. -/
def FileResult.complaint (arguments : Arguments) (config : Config) (r : FileResult) : String :=
  let shown := r.report.shown config.pretty (arguments.has .diagnostics) r.path r.source
  match r.output with
  | .error message =>
    if r.report.hasErrors then shown else shown ++ s!"{r.path}: error: {message}\n"
  | .ok _ => shown

/-! ## The run -/

section

variable {m : Type → Type} [Monad m] (host : Host m)

/-- A step that can end the run with a message. -/
abbrev Session (m : Type → Type) := ExceptT String m

/-- An outcome of the host, a failure of which ends the run. -/
def orFail {α : Type} (message : FileError → String) (step : m (Except FileError α)) :
    Session m α := do
  match ← (step : m (Except FileError α)) with
  | .ok a => return a
  | .error e => throw (message e)

/-- Reads a configuration file. -/
def loadConfig (label path : String) : Session m Config := do
  let text ← orFail (fun e => s!"Failed to load {label}: IO error: {e.text}") (host.read path)
  let format := Config.Format.ofExtension ((Path.extension? path.toList).map String.ofList)
  match Config.read? format text with
  | some config => return config
  | none => throw s!"Failed to load {label}: Configuration error: unreadable configuration"

/-- The configuration of a run: the file that is named, or the default one if it is there, under
the values of the command line. -/
def configOf (arguments : Arguments) : Session m Config := do
  let config ← match arguments.value? .config with
    | some path => loadConfig host "config file" path
    | none => do
      if ← host.isThere defaultConfigPath then loadConfig host defaultConfigPath defaultConfigPath
      else pure {}
  return config.override (← liftExcept arguments.overrides)
where
  liftExcept {α : Type} : Except String α → Session m α
    | .ok a => return a
    | .error message => throw message

/-- The files that a path stands for. -/
def filesOf (path : String) : Session m (List String) := do
  if ← host.isFolder path then
    return folderSources path (← orFail FileError.text (host.entries isWantedFolder path))
  else return [path]

/-- Writes a file, and makes the folder that it is in. -/
def save (path text : String) : Session m Unit := do
  match Path.parent? path.toList with
  | some (c :: rest) => orFail FileError.text (host.makeFolders (String.ofList (c :: rest)))
  | _ => pure ()
  orFail FileError.text (host.write path text)

/-- Reports a file and puts its output where it belongs. -/
def deliver (arguments : Arguments) (config : Config) (r : FileResult) : Session m Unit := do
  host.complain (r.complaint arguments config)
  match r.output with
  | .error _ => pure ()
  | .ok output =>
    if arguments.has .stdout then host.print (output ++ "\n")
    else save host (outputPath config r.path) output

/-- Writes a configuration file with the defaults. -/
def writeConfig : Session m Unit := do
  orFail (fun e => s!"IO error: {e.text}\n\nCaused by:\n    {e.text}")
    (host.write defaultConfigPath Config.initialText)
  host.print s!"Created {defaultConfigPath}\n"

/-- Minifies the files that are named. -/
def minifyFiles (arguments : Arguments) : Session m Unit := do
  let config ← configOf host arguments
  let files := (← arguments.files.mapM (filesOf host)).flatten
  if files.isEmpty then
    throw "No input files specified. Use --help for usage information."
  let results ← files.mapM fun path => do return FileResult.of config path (← host.read path)
  results.forM (deliver host arguments config)
  let failed := (results.filter (·.isFailed)).length
  if failed ≠ 0 then throw s!"{failed} file(s) failed to minify"

/-- Does what the arguments say. -/
def perform (arguments : Arguments) : Session m Unit :=
  if arguments.has .init then writeConfig host else minifyFiles host arguments

/-- How the tool is called. -/
def usage : String := "Usage: jscrunch [OPTIONS] [FILE]...\n"

/-- Runs the tool and gives its exit code. -/
def run (arguments : List String) : m UInt32 := do
  match Arguments.parse arguments with
  | .error .usage => do
    host.complain usage
    return 2
  | .error .help => do
    host.print usage
    return 0
  | .error .version => do
    host.print "jscrunch 0.1.0\n"
    return 0
  | .ok arguments =>
    match ← (perform host arguments).run with
    | .ok () => return 0
    | .error message => do
      host.complain s!"Error: {message}\n"
      return 1

end

end Minifier
