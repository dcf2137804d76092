import SchemaAssembly.CommandLine.Run

/-!
The command-line program: reads the files that a command may ask for, runs the command over them
and prints what it says.
-/

set_option autoImplicit false

namespace SchemaAssembly

namespace Program

def pathOf (location : List String) : String := "/" ++ String.intercalate "/" location

def isDirectoryAt (location : List String) : IO Bool := do
  try
    let path ← IO.FS.realPath (pathOf location)
    path.isDir
  catch _ => return false

def namesIn (location : List String) : IO (List String) := do
  try
    let path ← IO.FS.realPath (pathOf location)
    let entries ← path.readDir
    return entries.toList.map fun e => e.fileName
  catch _ => return []

def addFile (t : FileTree) (location : List String) : IO FileTree := do
  try
    let bytes ← IO.FS.readBinFile (pathOf location)
    return t.add location (.file bytes)
  catch _ => return t

/-- Adds everything at and below a location, not deeper than `depth`. -/
def addBelow : Nat → FileTree → List String → IO FileTree
  | 0, t, _ => return t
  | depth + 1, t, location => do
    if ← isDirectoryAt location then
      let names ← namesIn location
      names.foldlM (fun t name => addBelow depth t (location ++ [name]))
        (t.add location .directory)
    else addFile t location

/-- How many directories below each other are looked into. -/
def depthLimit : Nat := 64

/-- Walks along the parts of a path, noting the directories passed, and gives the location. -/
def walk (t : FileTree) (location : List String) : List String → IO (FileTree × List String)
  | [] => return (t, location)
  | part :: rest => do
    if part == "" || part == "." then walk t location rest
    else
      let next := if part == ".." then location.dropLast else location ++ [part]
      if ← isDirectoryAt next then walk (t.add next .directory) next rest
      else return (t, next)

def start (t : FileTree) (path : String) : List String :=
  if Path.isAbsolute path then [] else t.workingDirectory

def addPath (t : FileTree) (path : String) : IO FileTree := do
  let (t, location) ← walk t (start t path) (path.splitOn "/")
  if t.isDirectoryAt location then return t else addFile t location

/-- The parts of a pattern before the first one with a wildcard. -/
def plainParts (pattern : String) : List String :=
  (pattern.splitOn "/").takeWhile fun part =>
    !part.toList.any fun c => c == '*' || c == '?' || c == '['

/-- Adds all that a pattern may match. -/
def addPattern (t : FileTree) (pattern : String) : IO FileTree := do
  let (t, location) ← walk t (start t pattern) (plainParts pattern)
  addBelow depthLimit t location

def filesFor (c : Command) : IO FileTree := do
  let place ← IO.FS.realPath "."
  let here := (place.toString.splitOn "/").filter fun part => part != ""
  let empty : FileTree := (FileTree.empty.add here .directory)
  let t : FileTree := { empty with workingDirectory := here }
  match c with
  | .check paths => paths.foldlM addPath t
  | .inspect config _ =>
    let t ← addPath t config
    match Settings.load t config with
    | .error _ => return t
    | .ok settings => settings.resolvedLocations.foldlM addPattern t
  | .version => return t

/-- What is printed where a command line is refused or only asks for help. -/
def usageText : UsageError → String
  | .displayHelp | .noArguments =>
    "Usage: gqlwire [OPTIONS] <COMMAND>\n\nCommands: check, inspect, version, help"
  | .displayVersion => "gqlwire 0.1.0"
  | .missingRequiredArgument => "error: the following required arguments were not provided"
  | .missingSubcommand => "error: a subcommand is required"
  | .invalidSubcommand => "error: unrecognized subcommand"
  | .argumentConflict => "error: an argument cannot be used with another one"
  | .invalidValue => "error: a value is required but none was supplied"
  | .tooManyValues => "error: unexpected value found; no more were expected"
  | .unknownArgument => "error: unexpected argument found"

/-- Prints the problems with their codes and help. -/
def report (e : ConfigurationError) : IO Unit := do
  IO.eprintln (e.code ++ ": " ++ e.message)
  match e.help? with
  | some help => IO.eprintln ("  help: " ++ help)
  | none => return

def execute (words : List String) : IO UInt32 := do
  match CommandLine.parse words with
  | .error e =>
    if e.exitCode = 0 then IO.println (usageText e) else IO.eprintln (usageText e)
    return e.exitCode.toUInt32
  | .ok line =>
    let files ← filesFor line.command
    let result := line.run files
    for text in result.output do IO.println text
    for problem in result.problems do report problem
    match result.conclusion with
    | some text => IO.eprintln text
    | none => pure ()
    return result.exitCode.toUInt32

end Program

end SchemaAssembly

def main (words : List String) : IO UInt32 := SchemaAssembly.Program.execute words
