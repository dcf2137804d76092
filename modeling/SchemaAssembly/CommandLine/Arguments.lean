/-!
Command lines: options and one subcommand. Options may be written anywhere on their level, short
ones joined behind one hyphen, and the first refusal from the left is the one reported.
-/

set_option autoImplicit false

namespace SchemaAssembly

/-- The form in which `inspect` prints a schema. -/
inductive InspectFormat where
  | summary
  | sdl
  | json
  deriving DecidableEq

inductive Command where
  | check (files : List String)
  | inspect (config : String) (format : InspectFormat)
  | version

structure CommandLine where
  verbose : Bool
  quiet : Bool
  command : Command

/-- Why a command line was not carried out; the last two are answers, not mistakes. -/
inductive UsageError where
  | missingRequiredArgument
  | missingSubcommand
  | noArguments
  | invalidSubcommand
  | argumentConflict
  | invalidValue
  | tooManyValues
  | unknownArgument
  | displayHelp
  | displayVersion
  deriving DecidableEq

namespace UsageError

def exitCode : UsageError → Nat
  | displayHelp | displayVersion => 0
  | _ => 2

end UsageError

namespace CommandLine

def defaultConfig : String := "gqlwire.toml"

inductive Verb where
  | check
  | inspect
  | version
  | help
  deriving DecidableEq

def verb? : String → Option Verb
  | "check" => some .check
  | "inspect" => some .inspect
  | "version" => some .version
  | "help" => some .help
  | _ => none

inductive Flag where
  | verbose
  | quiet
  | sdl
  | json
  | config
  | help
  | version
  deriving DecidableEq

/-- The options of the level above all subcommands, and those inside one. -/
def flagsOf : Option Verb → List Flag
  | none => [.verbose, .quiet, .help, .version]
  | some .inspect => [.verbose, .quiet, .help, .sdl, .json, .config]
  | some _ => [.verbose, .quiet, .help]

def longFlag? : String → Option Flag
  | "verbose" => some .verbose
  | "quiet" => some .quiet
  | "sdl" => some .sdl
  | "json" => some .json
  | "config" => some .config
  | "help" => some .help
  | "version" => some .version
  | _ => none

def shortFlag? : Char → Option Flag
  | 'v' => some .verbose
  | 'q' => some .quiet
  | 'c' => some .config
  | 'h' => some .help
  | 'V' => some .version
  | _ => none

/-- What is read on one level. -/
structure Level where
  flags : List Flag := []
  config : Option String := none
  files : List String := []

/-- Notes a flag; each may stand once. -/
def Level.note (l : Level) (f : Flag) : Except UsageError Level :=
  match f with
  | .help => .error .displayHelp
  | .version => .error .displayVersion
  | f => if l.flags.contains f then .error .argumentConflict else .ok { l with flags := f :: l.flags }

/-- Takes the value of the option `--config`, which may stand once and must not be empty. -/
def Level.setConfig (l : Level) (value : String) : Except UsageError Level :=
  match l.note .config with
  | .error e => .error e
  | .ok l => if value.isEmpty then .error .invalidValue else .ok { l with config := some value }

/-- Short options behind one hyphen; tells whether the last of them waits for a value. -/
def readShort (known : List Flag) (l : Level) : List Char → Except UsageError (Level × Bool)
  | [] => .ok (l, false)
  | c :: rest =>
    match shortFlag? c with
    | none => .error .unknownArgument
    | some f =>
      if !known.contains f then .error .unknownArgument
      else if f = .config then
        match rest with
        | [] => .ok (l, true)
        | '=' :: value => (l.setConfig (String.ofList value)).map fun l => (l, false)
        | value => (l.setConfig (String.ofList value)).map fun l => (l, false)
      else
        match l.note f with
        | .error e => .error e
        | .ok l => readShort known l rest

/-- A long option, perhaps with its value behind an equals sign. -/
def readLong (known : List Flag) (l : Level) (cs : List Char) : Except UsageError (Level × Bool) :=
  let name := cs.takeWhile fun c => c != '='
  match longFlag? (String.ofList name) with
  | none => .error .unknownArgument
  | some f =>
    if !known.contains f then .error .unknownArgument
    else
      match f, cs.drop name.length with
      | .config, [] => .ok (l, true)
      | .config, _ :: value => (l.setConfig (String.ofList value)).map fun l => (l, false)
      | f, [] => (l.note f).map fun l => (l, false)
      | _, _ => .error .tooManyValues

/-- What one level ends with: its options, and a subcommand with the words after it. -/
abbrev Scan := Except UsageError (Level × Option (Verb × List String))

/-- A word that is no option. -/
def readWord (verb : Option Verb) (escaped : Bool) (l : Level) (word : String)
    (rest : List String) (go : Level → Scan) : Scan :=
  match verb with
  | none =>
    match verb? word with
    | some v => if escaped then .error .unknownArgument else .ok (l, some (v, rest))
    | none => .error .invalidSubcommand
  | some .check =>
    if word.isEmpty then .error .invalidValue else go { l with files := l.files ++ [word] }
  | some _ => .error .unknownArgument

/-- Reads one level. After two hyphens nothing is an option. -/
def scan (verb : Option Verb) : Bool → Level → List String → Scan
  | _, l, [] => .ok (l, none)
  | true, l, word :: rest => readWord verb true l word rest fun l => scan verb true l rest
  | false, l, word :: rest =>
    match word.toList with
    | ['-', '-'] => scan verb true l rest
    | '-' :: '-' :: cs =>
      match readLong (flagsOf verb) l cs with
      | .error e => .error e
      | .ok (l, waits) => if waits then scanValue verb l rest else scan verb false l rest
    | '-' :: c :: cs =>
      match readShort (flagsOf verb) l (c :: cs) with
      | .error e => .error e
      | .ok (l, waits) => if waits then scanValue verb l rest else scan verb false l rest
    | _ => readWord verb false l word rest fun l => scan verb false l rest
where
  /-- The value of an option is the next word, unless that is an option itself. -/
  scanValue (verb : Option Verb) (l : Level) : List String → Scan
    | [] => .error .invalidValue
    | word :: rest =>
      match word.toList with
      | '-' :: _ :: _ => .error .invalidValue
      | _ =>
        match l.setConfig word with
        | .error e => .error e
        | .ok l => scan verb false l rest

/-- The words after `help` name a subcommand. -/
def helpFor : List String → UsageError
  | [] => .displayHelp
  | [word] => if (verb? word).isSome then .displayHelp else .invalidSubcommand
  | _ => .invalidSubcommand

def formatOf (l : Level) : Except UsageError InspectFormat :=
  if l.flags.contains .sdl && l.flags.contains .json then .error .argumentConflict
  else .ok (if l.flags.contains .sdl then .sdl else if l.flags.contains .json then .json else .summary)

/-- The subcommand from the options and words inside it. -/
def commandOf (v : Verb) (l : Level) : Except UsageError Command :=
  match v with
  | .check => if l.files.isEmpty then .error .missingRequiredArgument else .ok (.check l.files)
  | .inspect => (formatOf l).map fun f => .inspect (l.config.getD defaultConfig) f
  | .version => .ok .version
  | .help => .error .displayHelp

def parse (words : List String) : Except UsageError CommandLine :=
  match scan none false {} words with
  | .error e => .error e
  | .ok (l, none) => .error (if l.flags.isEmpty then .noArguments else .missingSubcommand)
  | .ok (_, some (.help, rest)) => .error (helpFor rest)
  | .ok (outer, some (v, rest)) =>
    match scan (some v) false {} rest with
    | .error e => .error e
    | .ok (inner, _) =>
      (commandOf v inner).map fun c =>
        let flags := outer.flags ++ inner.flags
        ⟨flags.contains .verbose, flags.contains .quiet, c⟩

end CommandLine

end SchemaAssembly
