import SchemaAssembly.Files.Path

/-!
A tree of files: the state of a disk as far as a program reads it. Every directory on the way to
an entry is an entry too.
-/

set_option autoImplicit false

namespace SchemaAssembly

inductive FileContent where
  | file (bytes : ByteArray)
  | directory

/-- Absolute locations with their content, and the directory that relative paths start from. -/
structure FileTree where
  workingDirectory : List String
  entries : List (List String × FileContent)

inductive FileError where
  | notFound
  | notDirectory
  | isDirectory
  | notText
  deriving DecidableEq

def FileError.message : FileError → String
  | notFound => "No such file or directory (os error 2)"
  | notDirectory => "Not a directory (os error 20)"
  | isDirectory => "Is a directory (os error 21)"
  | notText => "stream did not contain valid UTF-8"

namespace FileTree

def empty : FileTree := ⟨[], []⟩

def content? (t : FileTree) (at_ : List String) : Option FileContent :=
  if at_.isEmpty then some .directory
  else (t.entries.find? fun e => e.1 == at_).map (·.2)

def isDirectoryAt (t : FileTree) (at_ : List String) : Bool :=
  match t.content? at_ with
  | some .directory => true
  | _ => false

def add (t : FileTree) (location : List String) (content : FileContent) : FileTree :=
  let above := (List.range location.length).map fun n => location.take n
  let missing := above.filter fun d => (t.content? d).isNone
  let kept := t.entries.filter fun e => e.1 != location
  { t with entries := kept ++ missing.map (·, .directory) ++ [(location, content)] }

def remove (t : FileTree) (location : List String) : FileTree :=
  { t with entries := t.entries.filter fun e => e.1 != location }

/-- Follows the parts of a path; only directories can be entered or left. -/
def follow (t : FileTree) (location : List String) : List (List Char) →
    Except FileError (List String)
  | [] => .ok location
  | part :: rest =>
    if part.isEmpty || part = ['.'] || part = ['.', '.'] then
      if t.isDirectoryAt location then
        follow t (if part = ['.', '.'] then location.dropLast else location) rest
      else .error .notDirectory
    else if t.isDirectoryAt location then
      let next := location ++ [String.ofList part]
      match t.content? next with
      | some _ => follow t next rest
      | none => .error .notFound
    else .error .notDirectory

/-- The location that a path leads to. -/
def locate (t : FileTree) (path : String) : Except FileError (List String) :=
  if path.isEmpty then .error .notFound
  else
    t.follow (if Path.isAbsolute path then [] else t.workingDirectory)
      (Path.splitAt '/' path.toList)

def lookup (t : FileTree) (path : String) : Except FileError FileContent := do
  let location ← t.locate path
  match t.content? location with
  | some c => return c
  | none => throw .notFound

def exists? (t : FileTree) (path : String) : Bool :=
  match t.lookup path with
  | .ok _ => true
  | .error _ => false

def isDirectory (t : FileTree) (path : String) : Bool :=
  match t.lookup path with
  | .ok .directory => true
  | _ => false

def isFile (t : FileTree) (path : String) : Bool :=
  match t.lookup path with
  | .ok (.file _) => true
  | _ => false

def readText (t : FileTree) (path : String) : Except FileError String := do
  match ← t.lookup path with
  | .directory => throw .isDirectory
  | .file bytes =>
    match String.fromUTF8? bytes with
    | some s => return s
    | none => throw .notText

def childrenOf (t : FileTree) (path : String) : List String :=
  match t.locate path with
  | .error _ => []
  | .ok location =>
    t.entries.filterMap fun e =>
      if e.1.dropLast == location && !e.1.isEmpty then e.1.getLast? else none

end FileTree

end SchemaAssembly
