import SchemaAssembly.Fetcher.Basic
import SchemaAssembly.Wiring.TypeResolver

/-!
The code behind a schema: fetchers by coordinates and type resolvers by the names of abstract
types, both in the order in which they were first bound.
-/

set_option autoImplicit false

namespace SchemaAssembly

/-- Fetchers in the order of their binding; a later one takes the place of an earlier one. -/
abbrev FetcherTable := List (Coordinates × Fetcher)

namespace FetcherTable

def get? (t : FetcherTable) (c : Coordinates) : Option Fetcher := CoordinateMap.get? c t

def contains (t : FetcherTable) (c : Coordinates) : Bool := (get? t c).isSome

def put (c : Coordinates) (f : Fetcher) : FetcherTable → FetcherTable
  | [] => [(c, f)]
  | (d, g) :: rest => if d = c then (c, f) :: rest else (d, g) :: put c f rest

def putAll (t other : FetcherTable) : FetcherTable := other.foldl (fun t e => put e.1 e.2 t) t

end FetcherTable

structure CodeRegistry where
  fetchers : FetcherTable := []
  resolvers : Entries TypeResolver := []
  fallback : Fetcher := .property

namespace CodeRegistry

def bind (r : CodeRegistry) (c : Coordinates) (f : Fetcher) : CodeRegistry :=
  { r with fetchers := FetcherTable.put c f r.fetchers }

def bound? (r : CodeRegistry) (c : Coordinates) : Option Fetcher := FetcherTable.get? r.fetchers c

def isBound (r : CodeRegistry) (c : Coordinates) : Bool := (r.bound? c).isSome

def fetcher (r : CodeRegistry) (c : Coordinates) : Fetcher := (r.bound? c).getD r.fallback

def coordinates (r : CodeRegistry) : List Coordinates := r.fetchers.map (·.1)

def setResolver (r : CodeRegistry) (name : String) (resolver : TypeResolver) : CodeRegistry :=
  { r with resolvers := Entries.put name resolver r.resolvers }

def resolver? (r : CodeRegistry) (name : String) : Option TypeResolver :=
  Entries.get? name r.resolvers

def setFallback (r : CodeRegistry) (f : Fetcher) : CodeRegistry := { r with fallback := f }

def mapFetchers (wrap : Coordinates → Fetcher → Fetcher) (r : CodeRegistry) : CodeRegistry :=
  { r with fetchers := r.fetchers.map fun e => (e.1, wrap e.1 e.2) }

end CodeRegistry

/-- What a contributor may do with a code registry. -/
inductive CodeCall where
  | bind (c : Coordinates) (f : Fetcher)
  | setResolver (name : String) (resolver : TypeResolver)
  | setFallback (f : Fetcher)

def CodeCall.apply (r : CodeRegistry) : CodeCall → CodeRegistry
  | bind c f => r.bind c f
  | setResolver name resolver => r.setResolver name resolver
  | setFallback f => r.setFallback f

end SchemaAssembly
