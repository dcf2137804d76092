import SchemaAssembly.Error.Configuration
import SchemaAssembly.Files.Tree
import SchemaAssembly.Json.Decode
import SchemaAssembly.Toml.Reader

/-!
Settings of an assembly: where schema fragments are found, and which built-in extensions are on.
-/

set_option autoImplicit false

namespace SchemaAssembly

/-- Which groups of extended scalars are on; `enabled` switches all of them. -/
structure ScalarSettings where
  enabled : Bool := true
  timeDates : Bool := true
  objects : Bool := true
  numbers : Bool := true
  deriving DecidableEq

structure ExtensionSettings where
  validation : Bool := true
  scalars : ScalarSettings := {}
  deriving DecidableEq

structure Settings where
  schemaLocations : List String := ["schema/**/*.graphql*"]
  baseDir : Option String := none
  introspection : Bool := true
  extensions : ExtensionSettings := {}
  deriving DecidableEq

def ScalarSettings.decode (exact : Bool) : Decoder ScalarSettings :=
  .record "struct ScalarsConfig"
    [.of "enabled" false .bool fun b (s : ScalarSettings) => { s with enabled := b },
     .of "time-dates" false .bool fun b s => { s with timeDates := b },
     .of "objects" false .bool fun b s => { s with objects := b },
     .of "numbers" false .bool fun b s => { s with numbers := b }]
    {} exact

def ScalarSettings.json (s : ScalarSettings) : Json :=
  .object [("enabled", .bool s.enabled), ("time-dates", .bool s.timeDates),
    ("objects", .bool s.objects), ("numbers", .bool s.numbers)]

def ExtensionSettings.decode (exact : Bool) : Decoder ExtensionSettings :=
  .record "struct ExtensionsConfig"
    [.of "validation" false .bool fun b (s : ExtensionSettings) => { s with validation := b },
     .of "scalars" false (ScalarSettings.decode exact) fun x s => { s with scalars := x }]
    {} exact

def ExtensionSettings.json (s : ExtensionSettings) : Json :=
  .object [("validation", .bool s.validation), ("scalars", s.scalars.json)]

namespace Settings

/-- Settings as JSON, or as TOML when the reading is not exact. -/
def decode (exact : Bool) : Decoder Settings :=
  .record "struct AssemblerConfig"
    [.of "schema-locations" false (.list .string)
       fun l (s : Settings) => { s with schemaLocations := l },
     .of "base-dir" false (.option .path) fun d s => { s with baseDir := d },
     .of "introspection" false .bool fun b s => { s with introspection := b },
     .of "extensions" false (ExtensionSettings.decode exact) fun x s => { s with extensions := x }]
    {} exact

def json (s : Settings) : Json :=
  .object [("schema-locations", .strings s.schemaLocations),
    ("base-dir", .ofString? s.baseDir), ("introspection", .bool s.introspection),
    ("extensions", s.extensions.json)]

def ofToml (source : String) : Except ConfigurationError Settings :=
  match Toml.parse? source with
  | none => .error (.invalidConfig "the text is no TOML document")
  | some v =>
    match decode false v with
    | .ok s => .ok s
    | .error e => .error (.invalidConfig e.message)

/-- Reads a TOML file; without a base directory its locations are relative to its own. -/
def ofFile (files : FileTree) (path : String) : Except ConfigurationError Settings :=
  match files.readText path with
  | .error e => .error (.io path e.message)
  | .ok source =>
    match ofToml source with
    | .error e => .error e
    | .ok s => .ok { s with baseDir := s.baseDir.or (Path.parent? path) }

/-- The settings in a file, or the default ones rooted in its directory when there is no file. -/
def load (files : FileTree) (path : String) : Except ConfigurationError Settings :=
  if files.isFile path then ofFile files path
  else
    let dir := (Path.parent? path).getD ""
    .ok { baseDir := some (if dir.isEmpty then "." else dir) }

def resolvedLocations (s : Settings) : List String :=
  s.schemaLocations.map fun location =>
    match s.baseDir with
    | some base => Path.join base location
    | none => location

end Settings

end SchemaAssembly
