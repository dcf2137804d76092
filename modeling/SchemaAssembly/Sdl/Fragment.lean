import SchemaAssembly.Schema.Registry
import SchemaAssembly.Sdl.Grammar

/-!
Schema fragments: named texts with their definitions, and the merging of fragments into a registry.
Base definitions of all fragments come first, then extensions, so that an extension may stand
before what it extends.
-/

set_option autoImplicit false

namespace SchemaAssembly

structure Fragment where
  name : String
  source : String
  definitions : List Sdl.Definition

namespace Fragment

/-- Reads a text; of several faults the first is reported. -/
def parse (name source : String) : Except ConfigurationError Fragment :=
  let cs := source.toList
  let fail (fault : FragmentFault) (p : Position) : Except ConfigurationError Fragment :=
    .error (.invalidFragment name fault p)
  match Sdl.document ⟨cs, 0, []⟩ with
  | ⟨none, reach⟩ => fail .unexpected (Position.byLineFeeds cs reach ⟨1, 1⟩)
  | ⟨some (definitions, c), _⟩ =>
    match c.faults.getLast? with
    | some (offset, fault) => fail fault (Position.ofOffset cs offset)
    | none => .ok ⟨name, source, definitions⟩

def size (f : Fragment) : Nat := f.definitions.length

def isEmpty (f : Fragment) : Bool := f.definitions.isEmpty

/-- The names of the types that the fragment defines, extensions left out. -/
def typeNames (f : Fragment) : List String :=
  f.definitions.filterMap fun
    | .type d => some d.name
    | _ => none

end Fragment

/-- A fragment with the name and the text that it was read from. -/
structure ParsedFragment where
  name : String
  source : String
  fragment : Fragment
  parsed : Fragment.parse name source = .ok fragment

def ParsedFragment.parse (name source : String) : Except ConfigurationError ParsedFragment :=
  match h : Fragment.parse name source with
  | .error e => .error e
  | .ok fragment => .ok ⟨name, source, fragment, h⟩

/-- Roots named later take over from those named before. -/
def Sdl.NamedRoots.later (earlier later : Sdl.NamedRoots) : Sdl.NamedRoots :=
  ⟨later.query.or earlier.query, later.mutation.or earlier.mutation,
    later.subscription.or earlier.subscription⟩

/-- The roots that the schema definitions of these fragments name. -/
def namedRoots (fragments : List Fragment) : Sdl.NamedRoots :=
  (fragments.flatMap (·.definitions)).foldl
    (fun roots d =>
      match d with
      | .roots r => roots.later r
      | _ => roots)
    default

namespace TypeRegistry

def addBase (origin : String) (r : TypeRegistry) : Sdl.Definition → Registration
  | .type d => r.addType origin d
  | .directive d => r.addDirective d
  | _ => .done r

def addExtension (origin : String) (r : TypeRegistry) : Sdl.Definition → Registration
  | .extension d => r.extendType origin d
  | _ => .done r

def addFragment (r : TypeRegistry) (f : Fragment) : Registration :=
  (registerAll (addBase f.name) r f.definitions).andThen fun s => .done (s.addSource f.source)

def extendByFragment (r : TypeRegistry) (f : Fragment) : Registration :=
  registerAll (addExtension f.name) r f.definitions

/-- Sets the named roots, the others going back to their standard names; without any named root
nothing changes. -/
def applyRoots (r : TypeRegistry) (roots : Sdl.NamedRoots) : TypeRegistry :=
  if roots.query.isSome || roots.mutation.isSome || roots.subscription.isSome then
    r.setRoots ⟨roots.query.getD RootTypes.standard.query,
      roots.mutation.getD RootTypes.standard.mutation,
      roots.subscription.getD RootTypes.standard.subscription⟩
  else r

def mergeFragments (r : TypeRegistry) (fragments : List Fragment) : Registration :=
  ((registerAll addFragment r fragments).andThen fun r =>
    registerAll extendByFragment r fragments).andThen fun r =>
      .done (r.applyRoots (namedRoots fragments))

end TypeRegistry

end SchemaAssembly
