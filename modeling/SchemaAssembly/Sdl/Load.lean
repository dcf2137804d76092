import SchemaAssembly.Files.Glob
import SchemaAssembly.Sdl.Fragment

/-!
Schema fragments from files: by location patterns, each matched file once and in the order of
their paths, or from given files with all problems collected.
-/

set_option autoImplicit false

namespace SchemaAssembly

/-- Enters a path in order unless the same path is there. -/
def insertPath (p : String) : List String → List String
  | [] => [p]
  | q :: rest =>
    let a := Path.components p
    let b := Path.components q
    if a = b then q :: rest
    else if Path.componentsBefore a b then p :: q :: rest
    else q :: insertPath p rest

namespace Fragment

def ofFile (files : FileTree) (path : String) : Except ConfigurationError Fragment :=
  match files.readText path with
  | .error e => .error (.io path e.message)
  | .ok source => parse path source

def filesAt (files : FileTree) (locations : List String) : Except ConfigurationError (List String) :=
  locations.foldlM
    (fun found pattern =>
      match Glob.paths files pattern with
      | .error e => .error (.invalidSchemaLocation pattern e.message)
      | .ok paths =>
        .ok ((paths.filter files.isFile).foldl (fun acc p => insertPath p acc) found))
    []

def load (files : FileTree) (locations : List String) : Except ConfigurationError (List Fragment) := do
  (← filesAt files locations).mapM (ofFile files)

/-- Reads all files and merges those that could be read; gives the registry and every problem. -/
def check (files : FileTree) (paths : List String) : TypeRegistry × List ConfigurationError :=
  let read := paths.map (ofFile files)
  let fragments := read.filterMap fun r => r.toOption
  let problems := read.filterMap fun
    | .error e => some e
    | .ok _ => none
  let merged := TypeRegistry.initial.mergeFragments fragments
  (merged.registry, problems ++ merged.failure.toList)

end Fragment

end SchemaAssembly
