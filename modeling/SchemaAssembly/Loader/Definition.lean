import SchemaAssembly.Error.Configuration
import SchemaAssembly.Loader.Work
import SchemaAssembly.Request.Context
import SchemaAssembly.Text.Blank

/-!
Definitions of data loaders: a batch function with its options, and the table from which every
request gets loaders of its own.
-/

set_option autoImplicit false

namespace SchemaAssembly

structure LoaderEnvironment where
  loader : String
  context : RequestContext
  /-- The names of all loaders of the request, for functions that ask for them. -/
  registry : Option (List String)

/-- Loads the values of many keys, one value for each key in order. -/
structure BatchLoader where
  load : LoaderEnvironment → List Json → Work (Except HandlerError (List Json))
  consumesRegistry : Bool := false
  /-- The name under which its calls are noted; a loader may be registered under another one. -/
  label : String := ""

/-- Looks up each key by its text and takes what is found out of the table; null where nothing
is found. -/
def takeEach : Entries Json → List Json → List Json
  | _, [] => []
  | found, k :: rest =>
    (found.get? k.text).getD .null :: takeEach (found.erase k.text) rest

namespace BatchLoader

/-- A batch function that answers with a table of values by the texts of their keys. -/
def mapped (find : LoaderEnvironment → List Json → Work (Except HandlerError (Entries Json))) :
    BatchLoader where
  load environment keys :=
    (find environment keys).map fun r => r.map fun found => takeEach found keys

end BatchLoader

/-- When a loader with a group of its own is dispatched. -/
inductive DispatchPredicate where
  /-- Once so many keys are queued. -/
  | depth (least : Nat)
  /-- Once so much time has passed since the last dispatch. -/
  | elapsed (wait : Nat)
  /-- By a test of the loader and of the time since its last dispatch. -/
  | custom (test : Loader → Nat → Bool)

def DispatchPredicate.holds (l : Loader) (now : Nat) : DispatchPredicate → Bool
  | depth least => decide (least ≤ l.depth)
  | elapsed wait => decide (wait ≤ l.sinceLastDispatch now)
  | custom test => test l (l.sinceLastDispatch now)

structure LoaderDefinition where
  name : String
  batch : BatchLoader
  options : LoaderOptions := {}
  predicate : Option DispatchPredicate := none

/-- Where a loader was declared. -/
inductive LoaderScope where
  | component
  | field
  deriving DecidableEq

/-- Decorates the batch function of a named loader. -/
abbrev LoaderInstrumentation := BatchLoader → String → BatchLoader

namespace LoaderInstrumentation

/-- Keeps a log of the calls, which changes no answer. -/
def logging : LoaderInstrumentation := fun batch _ => batch

end LoaderInstrumentation

structure LoaderTable where
  definitions : List LoaderDefinition := []
  instrumentation : List LoaderInstrumentation := []

namespace LoaderTable

def get? (t : LoaderTable) (name : String) : Option LoaderDefinition :=
  t.definitions.find? fun d => d.name == name

def names (t : LoaderTable) : List String := t.definitions.map (·.name)

def register (t : LoaderTable) (d : LoaderDefinition) : Except ConfigurationError LoaderTable :=
  match t.get? d.name with
  | some _ => .error (.duplicateDataLoader d.name)
  | none => .ok { t with definitions := t.definitions ++ [d] }

/-- The name under which a loader declared on a component is registered: a blank name stands for
the simple name of the component, and a loader of a field must be named and must not sit on a
decorated component. -/
def declaredName (component : String) (decorated : Bool) (scope : LoaderScope) (name : String) :
    Except ConfigurationError String :=
  match scope with
  | .component => .ok (if isBlankText name then simpleName component else name)
  | .field =>
    if isBlankText name then .error (.unnamedDataLoaderOnField component)
    else if decorated then .error (.decoratedDataLoader component name)
    else .ok name

def registerDeclared (t : LoaderTable) (component : String) (decorated : Bool)
    (scope : LoaderScope) (d : LoaderDefinition) : Except ConfigurationError LoaderTable :=
  match declaredName component decorated scope d.name with
  | .error e => .error e
  | .ok name => t.register { d with name := name }

/-- The batch function of a definition with all instrumentation around it. -/
def instrumented (t : LoaderTable) (d : LoaderDefinition) : BatchLoader :=
  t.instrumentation.foldl (fun batch decorate => decorate batch d.name) d.batch

end LoaderTable

end SchemaAssembly
