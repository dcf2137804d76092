import SchemaAssembly.Assembly.Host
import SchemaAssembly.CommandLine.Arguments
import SchemaAssembly.Report.Summary

/-!
The subcommands: checking fragments, inspecting an assembled schema, and printing the version.
-/

set_option autoImplicit false

namespace SchemaAssembly

structure CommandResult where
  exitCode : Nat
  output : List String
  /-- The problems to report on the side. -/
  problems : List ConfigurationError := []
  /-- The last line about problems. -/
  conclusion : Option String := none

namespace Command

def runCheck (files : FileTree) (verbose quiet : Bool) (paths : List String) : CommandResult :=
  let announced := if verbose then paths.map fun p => "Checking " ++ p else []
  let (types, problems) := Fragment.check files paths
  if problems.isEmpty then
    let own := types.declared.filter fun d => d.origin != builtinOrigin
    let listed :=
      if verbose then own.map fun d => "  " ++ d.definition.keyword ++ " " ++ d.definition.name
      else []
    let concluded :=
      if quiet then [] else ["Success: " ++ toString paths.length ++ " file(s) checked"]
    ⟨0, announced ++ listed ++ concluded, [], none⟩
  else
    ⟨1, announced, problems,
      some ("Error: " ++ toString problems.length ++ " problem(s) found")⟩

def shown (quiet : Bool) (format : InspectFormat) (s : Schema) : List String :=
  let summary := SchemaSummary.ofSchema s
  match format with
  | .sdl => [s.sdl]
  | .json => [summary.json.pretty]
  | .summary =>
    summary.lines ++
      (if quiet then [] else
        ["Success: " ++ toString summary.types.length ++ " type(s), " ++
          toString summary.fields.length ++ " field(s)"])

def runInspect (files : FileTree) (quiet : Bool) (config : String) (format : InspectFormat) :
    CommandResult :=
  let assembled := do
    let settings ← Settings.load files config
    SchemaHost.build { settings := settings } files false
  match assembled with
  | .error e => ⟨1, [], [e], none⟩
  | .ok host => ⟨0, shown quiet format host.published.schema, [], none⟩

end Command

def CommandLine.run (files : FileTree) (c : CommandLine) : CommandResult :=
  match c.command with
  | .check paths => Command.runCheck files c.verbose c.quiet paths
  | .inspect config format => Command.runInspect files c.quiet config format
  | .version => ⟨0, ["gqlwire 0.1.0"], [], none⟩

end SchemaAssembly
