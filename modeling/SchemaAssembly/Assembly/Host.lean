import SchemaAssembly.Assembly.Assembler

/-!
Hosts keep the snapshot that serves requests. A reload publishes a new snapshot only when its
assembly succeeds.
-/

set_option autoImplicit false

namespace SchemaAssembly

structure SchemaHost where
  assembler : Assembler
  /-- Whether requests may ask for a reload. -/
  reloadable : Bool := false
  published : Snapshot
  /-- How many snapshots were published before this one. -/
  generation : Nat := 0

namespace SchemaHost

/-- Assembles and publishes the first snapshot. -/
def build (a : Assembler) (files : FileTree) (reloadable : Bool) :
    Except ConfigurationError SchemaHost :=
  (a.assembleOwn files).map fun s => { assembler := a, reloadable := reloadable, published := s }

/-- Assembles again; a failure leaves the published snapshot as it is. -/
def reload (h : SchemaHost) (files : FileTree) : SchemaHost × Except ConfigurationError Snapshot :=
  match h.assembler.assembleOwn files with
  | .error e => (h, .error e)
  | .ok s => ({ h with published := s, generation := h.generation + 1 }, .ok s)

/-- The snapshot for a request, after a reload if one is wanted. -/
def snapshotForRequest (h : SchemaHost) (files : FileTree) (wanted : Bool) :
    SchemaHost × Except ConfigurationError Snapshot :=
  if h.reloadable && wanted then h.reload files else (h, .ok h.published)

/-- One pass whose result is not published. -/
def assemble (h : SchemaHost) (files : FileTree) (raw : Option String) (visibility : Visibility) :
    Except ConfigurationError Snapshot :=
  h.assembler.assemble files raw visibility

end SchemaHost

end SchemaAssembly
