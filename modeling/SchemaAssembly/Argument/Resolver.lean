import SchemaAssembly.Argument.Mapper
import SchemaAssembly.Handler.Method
import SchemaAssembly.Text.Blank

/-!
Argument resolvers supply the values of handler parameters. In a chain the first resolver that
supports a parameter supplies its value; the chain remembers which one that was.
-/

set_option autoImplicit false

namespace SchemaAssembly

structure ArgumentResolver where
  supports : Parameter → Bool
  resolve : Parameter → FieldEnvironment → Except ResolutionError ArgumentValue

/-- The value of a field argument after mapping; an absent argument is null. -/
def namedArgument (mapper : InputMapper) (name : String) (e : FieldEnvironment) :
    Except ResolutionError ArgumentValue :=
  match e.argument? name with
  | none => .ok (.value .null)
  | some v =>
    let declared := e.definition.bind fun d => d.arguments.get? name
    (mapper v (declared.map (·.type)) e.types).map .value

namespace ArgumentResolver

/-- Field arguments by an explicit name. -/
def inputs (mapper : InputMapper) : ArgumentResolver where
  supports p :=
    match p.kind with
    | .input _ => true
    | _ => false
  resolve p e :=
    let name := match p.kind with
      | .input argument => trimmed argument
      | _ => ""
    if name.isEmpty then .error (.blankArgumentName p.index e.coordinates.key)
    else namedArgument mapper name e

/-- The environment itself, or the context in it. -/
def environment : ArgumentResolver where
  supports p := p.kind == .environment || p.kind == .context
  resolve p e := .ok (if p.kind = .context then .context e.context else .environment e)

/-- Field arguments by the names of the parameters. -/
def fallback (mapper : InputMapper) : ArgumentResolver where
  supports p := p.kind == .argument
  resolve p e := namedArgument mapper p.name e

/-- Custom resolvers, then the standard ones. -/
def standard (custom : List ArgumentResolver) (mapper : InputMapper) : List ArgumentResolver :=
  custom ++ [inputs mapper, environment, fallback mapper]

def position? (resolvers : List ArgumentResolver) (p : Parameter) : Option Nat :=
  resolvers.findIdx? fun r => r.supports p

/-- Resolves the parameters from the first to the last; `owner` stands in the message when no
resolver supports one. -/
def resolveAll (resolvers : List ArgumentResolver) (owner : String) (e : FieldEnvironment) :
    List Parameter → Except ResolutionError (List ArgumentValue)
  | [] => .ok []
  | p :: rest =>
    match resolvers.find? fun r => r.supports p with
    | none => .error (.noArgumentResolver p.index owner)
    | some r => do
      let v ← r.resolve p e
      let vs ← resolveAll resolvers owner e rest
      return v :: vs

end ArgumentResolver

def Handler.resolveArguments (resolvers : List ArgumentResolver) (h : Handler)
    (e : FieldEnvironment) : Except ResolutionError ResolvedArguments :=
  match ArgumentResolver.resolveAll resolvers h.qualifiedName e h.parameters with
  | .error err => .error err
  | .ok values => .ok ⟨h.parameters.map (·.name), values, e⟩

/-- A chain of resolvers with the positions found so far, by handler number and index. -/
structure ResolverChain where
  resolvers : List ArgumentResolver
  found : List ((Nat × Nat) × Nat) := []

namespace ResolverChain

/-- Adds a resolver at the end and forgets what was found. -/
def add (c : ResolverChain) (r : ArgumentResolver) : ResolverChain := ⟨c.resolvers ++ [r], []⟩

def found? (c : ResolverChain) (p : Parameter) : Option Nat :=
  (c.found.find? fun f => f.1 == (p.handler, p.index)).map (·.2)

/-- The position of the resolver for a parameter, which the chain remembers from then on. -/
def position (c : ResolverChain) (p : Parameter) : ResolverChain × Option Nat :=
  match c.found? p with
  | some i => (c, some i)
  | none =>
    match ArgumentResolver.position? c.resolvers p with
    | none => (c, none)
    | some i => ({ c with found := c.found ++ [((p.handler, p.index), i)] }, some i)

def resolverFor (c : ResolverChain) (p : Parameter) : ResolverChain × Option ArgumentResolver :=
  ((c.position p).1, (c.position p).2.bind fun i => c.resolvers[i]?)

def supports (c : ResolverChain) (p : Parameter) : ResolverChain × Bool :=
  ((c.position p).1, (c.position p).2.isSome)

def resolve (c : ResolverChain) (p : Parameter) (e : FieldEnvironment) :
    ResolverChain × Except ResolutionError ArgumentValue :=
  ((c.resolverFor p).1,
    match (c.resolverFor p).2 with
    | some r => r.resolve p e
    | none => .error (.unsupportedParameter p.index e.coordinates.key))

def resolveAll (owner : String) (e : FieldEnvironment) :
    ResolverChain → List Parameter →
      ResolverChain × Except ResolutionError (List ArgumentValue)
  | c, [] => (c, .ok [])
  | c, p :: rest =>
    match c.resolverFor p with
    | (c, none) => (c, .error (.noArgumentResolver p.index owner))
    | (c, some r) =>
      match r.resolve p e with
      | .error err => (c, .error err)
      | .ok v =>
        let (c, vs) := resolveAll owner e c rest
        (c, vs.map fun vs => v :: vs)

def resolveArguments (c : ResolverChain) (h : Handler) (e : FieldEnvironment) :
    ResolverChain × Except ResolutionError ResolvedArguments :=
  let (c, values) := resolveAll h.qualifiedName e c h.parameters
  (c, values.map fun values => ⟨h.parameters.map (·.name), values, e⟩)

end ResolverChain

end SchemaAssembly
