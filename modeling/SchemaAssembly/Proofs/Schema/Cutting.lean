import Mathlib.Data.List.Induction
import SchemaAssembly.Proofs.Assembly.ParsedTypes
import SchemaAssembly.Proofs.Schema.SameTypes

/-!
Definitions that are cut into a base definition and extensions. Fields are entered by name both when
a definition is read and when it is extended, everything else is appended; so the parts may be
spread in order over any number of extensions, and the merged type is that of the whole definition.
-/

set_option autoImplicit false

namespace SchemaAssembly

section Tables

variable {α : Type} {n m : String} {v w : α} {t base : Entries α}

theorem mem_keys_put_iff : n ∈ (Entries.put m w t).keys ↔ n ∈ t.keys ∨ n = m := by
  rw [Entries.keys_put, mem_appendNew, List.mem_singleton]

theorem put_put_self (n : String) (v w : α) (t : Entries α) :
    Entries.put n w (Entries.put n v t) = Entries.put n w t := by
  induction t with
  | nil => simp [Entries.put]
  | cons e rest ih =>
    obtain ⟨k, u⟩ := e
    by_cases hk : k = n
    · simp [Entries.put, hk]
    · simp only [Entries.put, hk, if_false, ih]

/-- A name that is there takes its new value before or after another name is entered. -/
theorem put_put_comm (hne : n ≠ m) (hn : n ∈ t.keys) :
    Entries.put n v (Entries.put m w t) = Entries.put m w (Entries.put n v t) := by
  induction t with
  | nil => exact absurd hn List.not_mem_nil
  | cons e rest ih =>
    obtain ⟨k, u⟩ := e
    by_cases hkn : k = n
    · have hkm : k ≠ m := hkn ▸ hne
      simp [Entries.put, hkn, hne]
    · have hrest : n ∈ Entries.keys rest := (List.mem_cons.mp hn).resolve_left (Ne.symm hkn)
      by_cases hkm : k = m
      · simp [Entries.put, hkm, Ne.symm hne]
      · simp only [Entries.put, hkn, hkm, if_false, ih hrest]

theorem put_extendFields (hn : n ∈ base.keys) (ht : n ∉ t.keys) :
    Entries.put n v (extendFields base t) = extendFields (Entries.put n v base) t := by
  induction t generalizing base with
  | nil => rfl
  | cons e rest ih =>
    obtain ⟨m, w⟩ := e
    obtain ⟨hne, hrest⟩ := not_or.mp fun h => ht (List.mem_cons.mpr h)
    have hstep : ∀ b : Entries α,
        extendFields b ((m, w) :: rest) = extendFields (Entries.put m w b) rest := fun _ => rfl
    rw [hstep, hstep, ih (mem_keys_put_iff.mpr (.inl hn)) hrest, put_put_comm hne hn]

theorem extendFields_put (ht : t.keys.Nodup) :
    extendFields base (Entries.put n v t) = Entries.put n v (extendFields base t) := by
  induction t generalizing base with
  | nil => rfl
  | cons e rest ih =>
    obtain ⟨m, w⟩ := e
    obtain ⟨hm, hrest⟩ := List.nodup_cons.mp ht
    have hstep : ∀ u, extendFields base ((m, u) :: rest) =
        extendFields (Entries.put m u base) rest := fun _ => rfl
    by_cases hmn : m = n
    · subst hmn
      have hput : Entries.put m v ((m, w) :: rest) = (m, v) :: rest := by simp [Entries.put]
      have hthere : m ∈ (Entries.put m w base).keys := mem_keys_put_iff.mpr (.inr rfl)
      rw [hput, hstep, hstep, put_extendFields hthere hm, put_put_self]
    · have hput : Entries.put n v ((m, w) :: rest) = (m, w) :: Entries.put n v rest := by
        simp [Entries.put, hmn]
      rw [hput, hstep]
      exact ih hrest

variable {key : α → String} {xs ys : List α}

theorem byName_concat (key : α → String) (xs : List α) (x : α) :
    Sdl.byName key (xs ++ [x]) = Entries.put (key x) x (Sdl.byName key xs) := by
  rw [Sdl.byName, List.foldl_append]
  rfl

theorem nodup_keys_byName (key : α → String) (xs : List α) : (Sdl.byName key xs).keys.Nodup := by
  induction xs using List.reverseRecOn with
  | nil => exact .nil
  | append_singleton xs x ih =>
    rw [byName_concat]
    exact Entries.nodup_keys_put ih

/-- A table of definitions may be filled in two parts. -/
theorem extendFields_byName (key : α → String) (xs ys : List α) :
    extendFields (Sdl.byName key xs) (Sdl.byName key ys) = Sdl.byName key (xs ++ ys) := by
  induction ys using List.reverseRecOn with
  | nil => rw [List.append_nil]; rfl
  | append_singleton ys y ih =>
    rw [byName_concat, extendFields_put (nodup_keys_byName key ys), ih, ← List.append_assoc,
      byName_concat]

theorem appendNew_of_nodup {xs ys : List String} (h : (xs ++ ys).Nodup) :
    appendNew xs ys = xs ++ ys := by
  induction ys generalizing xs with
  | nil => exact (List.append_nil xs).symm
  | cons y rest ih =>
    have hy : y ∉ xs := fun hmem => (List.nodup_append.mp h).2.2 y hmem y List.mem_cons_self rfl
    rw [← List.singleton_append, ← List.append_assoc] at h ⊢
    rw [List.singleton_append, appendNew, if_neg (by simpa using hy)]
    exact ih h

end Tables

inductive TypeKind where
  | scalar
  | object
  | interface
  | union
  | enumeration
  | input

/-- The parts of a definition or an extension as they are written, names repeated or not. A kind has
some of them; the others do not count. -/
structure WrittenParts where
  directives : List DirectiveUse
  interfaces : List String
  members : List String
  fields : List FieldDef
  inputs : List InputField
  values : List EnumValue

namespace WrittenParts

def append (p q : WrittenParts) : WrittenParts :=
  ⟨p.directives ++ q.directives, p.interfaces ++ q.interfaces, p.members ++ q.members,
    p.fields ++ q.fields, p.inputs ++ q.inputs, p.values ++ q.values⟩

def body (p : WrittenParts) : TypeKind → TypeBody
  | .scalar => .scalar
  | .object => .object (Sdl.byName FieldDef.name p.fields) p.interfaces
  | .interface => .interface (Sdl.byName FieldDef.name p.fields) p.interfaces
  | .union => .union p.members
  | .enumeration => .enumeration p.values
  | .input => .input (Sdl.byName InputField.name p.inputs)

/-- No interface is implemented twice, and no member named twice. -/
structure Distinct (p : WrittenParts) : Prop where
  interfaces : p.interfaces.Nodup
  members : p.members.Nodup

variable {p q : WrittenParts}

theorem Distinct.of_append (h : (p.append q).Distinct) : p.Distinct :=
  ⟨(List.nodup_append.mp h.interfaces).1, (List.nodup_append.mp h.members).1⟩

theorem extend?_body (h : (p.append q).Distinct) (k : TypeKind) :
    (p.body k).extend? (q.body k) = some ((p.append q).body k) := by
  have hi := appendNew_of_nodup h.interfaces
  have hm := appendNew_of_nodup h.members
  cases k <;> simp [body, TypeBody.extend?, append, extendFields_byName, hi, hm]

end WrittenParts

/-- A definition or an extension as it is written. -/
structure WrittenType where
  name : String
  description : Option String
  kind : TypeKind
  parts : WrittenParts

namespace WrittenType

variable {w base : WrittenType} {exts : List WrittenType}

def definition (w : WrittenType) : TypeDef :=
  ⟨w.name, w.description, w.parts.directives, w.parts.body w.kind⟩

/-- The definition is cut into a base definition and extensions: they are of its name and kind, the
base definition has its description, and their parts in this order are its parts. -/
structure CutInto (w base : WrittenType) (exts : List WrittenType) : Prop where
  alike : ∀ x ∈ base :: exts, x.name = w.name ∧ x.kind = w.kind
  description : base.description = w.description
  parts : w.parts = exts.foldl (fun p x => p.append x.parts) base.parts

theorem extended_definition {x : WrittenType} (hk : x.kind = w.kind)
    (h : (w.parts.append x.parts).Distinct) :
    w.definition.extended x.definition =
      definition { w with parts := w.parts.append x.parts } := by
  have hbody := WrittenParts.extend?_body h w.kind
  simp only [TypeDef.extended, definition, hk, hbody]
  rfl

theorem foldl_extended_definition (hk : ∀ x ∈ exts, x.kind = w.kind)
    (h : (exts.foldl (fun p x => p.append x.parts) w.parts).Distinct) :
    (exts.map definition).foldl TypeDef.extended w.definition =
      definition { w with parts := exts.foldl (fun p x => p.append x.parts) w.parts } := by
  induction exts generalizing w with
  | nil => rfl
  | cons x rest ih =>
    obtain ⟨hx, hrest⟩ := List.forall_mem_cons.mp hk
    have hfirst : ∀ (p : WrittenParts) (xs : List WrittenType),
        (xs.foldl (fun p x => p.append x.parts) p).Distinct → p.Distinct := by
      intro p xs
      induction xs generalizing p with
      | nil => exact id
      | cons x xs ih => exact fun h => (ih _ h).of_append
    rw [List.map_cons, List.foldl_cons, extended_definition hx (hfirst _ rest h)]
    exact ih (w := { w with parts := w.parts.append x.parts }) hrest h

/-- The base definition with all extensions is the whole definition. -/
theorem CutInto.foldl_extended (h : w.CutInto base exts) (hw : w.parts.Distinct) :
    (exts.map definition).foldl TypeDef.extended base.definition = w.definition := by
  obtain ⟨⟨hname, hkind⟩, hexts⟩ := List.forall_mem_cons.mp h.alike
  rw [foldl_extended_definition fun x hx => (hexts x hx).2.trans hkind.symm]
  · rw [← h.parts, definition, definition, hname, hkind, h.description]
  · rw [← h.parts]
    exact hw

end WrittenType

/-- The definition is what some parts give, as they are written. -/
def TypeDef.IsWritten (t : TypeDef) : Prop := ∃ w : WrittenType, w.definition = t

namespace Sdl

open Reader

section Written

variable {n : String} {d : Option String} {uses : List DirectiveUse}

/-- Every table that may be there is filled by name. -/
def Tabled {α : Type} (key : α → String) (t : Option (Entries α)) : Prop :=
  ∀ b, t = some b → ∃ xs, byName key xs = b

theorem Tabled.exists_getD {α : Type} {key : α → String} {t : Option (Entries α)}
    (h : Tabled key t) : ∃ xs, byName key xs = t.getD [] := by
  cases t with
  | none => exact ⟨[], rfl⟩
  | some b => exact h b rfl

theorem isWritten_scalar : TypeDef.IsWritten ⟨n, d, uses, .scalar⟩ :=
  ⟨⟨n, d, .scalar, ⟨uses, [], [], [], [], []⟩⟩, rfl⟩

theorem isWritten_object (fs : Option (Entries FieldDef)) (h : Tabled FieldDef.name fs)
    (is : List String) : TypeDef.IsWritten ⟨n, d, uses, .object (fs.getD []) is⟩ := by
  obtain ⟨xs, hxs⟩ := h.exists_getD
  rw [← hxs]
  exact ⟨⟨n, d, .object, ⟨uses, is, [], xs, [], []⟩⟩, rfl⟩

theorem isWritten_interface {fs : Option (Entries FieldDef)} (h : Tabled FieldDef.name fs)
    (is : List String) : TypeDef.IsWritten ⟨n, d, uses, .interface (fs.getD []) is⟩ := by
  obtain ⟨xs, hxs⟩ := h.exists_getD
  rw [← hxs]
  exact ⟨⟨n, d, .interface, ⟨uses, is, [], xs, [], []⟩⟩, rfl⟩

theorem isWritten_union (ms : List String) : TypeDef.IsWritten ⟨n, d, uses, .union ms⟩ :=
  ⟨⟨n, d, .union, ⟨uses, [], ms, [], [], []⟩⟩, rfl⟩

theorem isWritten_enumeration (vs : List EnumValue) :
    TypeDef.IsWritten ⟨n, d, uses, .enumeration vs⟩ :=
  ⟨⟨n, d, .enumeration, ⟨uses, [], [], [], [], vs⟩⟩, rfl⟩

theorem isWritten_input {fs : Option (Entries InputField)} (h : Tabled InputField.name fs) :
    TypeDef.IsWritten ⟨n, d, uses, .input (fs.getD [])⟩ := by
  obtain ⟨xs, hxs⟩ := h.exists_getD
  rw [← hxs]
  exact ⟨⟨n, d, .input, ⟨uses, [], [], [], xs, []⟩⟩, rfl⟩

theorem finds_fields : Finds fields fun b => ∃ xs, byName FieldDef.name xs = b :=
  (finds_true _).bind fun xs _ => finds_pure ⟨xs, rfl⟩

theorem finds_inputFields : Finds inputFields fun b => ∃ xs, byName InputField.name xs = b :=
  (finds_true _).bind fun xs _ => finds_pure ⟨xs, rfl⟩

theorem finds_optional {α : Type} {p : Reader α} {good : α → Prop} (hp : Finds p good) :
    Finds (optional p) fun r => ∀ b, r = some b → good b := by
  intro c r m h
  rw [result_optional] at h
  cases hc : (p c).result with
  | none =>
    rw [hc] at h
    cases h
    exact nofun
  | some f =>
    rw [hc] at h
    cases h
    intro b hb
    cases hb
    exact hp c _ _ hc

theorem finds_openBody {α : Type} {p : Reader α} {good : α → Prop} (hp : Finds p good) :
    Finds (openBody p) fun r => ∀ b, r.2 = some b → good b :=
  (finds_true _).bind fun _ _ => (finds_optional hp).bind fun _ hb => finds_pure hb

theorem finds_written_typeDefinition : Finds typeDefinition TypeDef.IsWritten := by
  refine (finds_true _).bind fun d _ => finds_firstOf ?_
  simp only [List.forall_mem_cons, List.not_mem_nil, false_imp_iff, implies_true, and_true]
  refine ⟨?_, ?_, ?_, ?_, ?_, ?_⟩
  · exact (finds_true _).bind fun _ _ => (finds_true _).bind fun _ _ => (finds_true _).bind
      fun _ _ => finds_pure isWritten_scalar
  · exact (finds_true _).bind fun _ _ => (finds_true _).bind fun _ _ => (finds_true _).bind
      fun _ _ => (finds_openBody finds_fields).bind fun _ h => finds_pure (isWritten_object _ h _)
  · exact (finds_true _).bind fun _ _ => (finds_true _).bind fun _ _ => (finds_true _).bind
      fun _ _ => (finds_openBody finds_fields).bind fun _ h => finds_pure (isWritten_interface h _)
  · exact (finds_true _).bind fun _ _ => (finds_true _).bind fun _ _ => (finds_true _).bind
      fun _ _ => finds_pure (isWritten_union _)
  · exact (finds_true _).bind fun _ _ => (finds_true _).bind fun _ _ => (finds_true _).bind
      fun _ _ => finds_pure (isWritten_enumeration _)
  · exact (finds_true _).bind fun _ _ => (finds_true _).bind fun _ _ =>
      (finds_openBody finds_inputFields).bind fun _ h => finds_pure (isWritten_input h)

theorem finds_written_typeExtension : Finds typeExtension TypeDef.IsWritten := by
  refine (finds_true _).bind fun _ _ => finds_firstOf ?_
  simp only [List.forall_mem_cons, List.not_mem_nil, false_imp_iff, implies_true, and_true]
  refine ⟨?_, ?_, ?_, ?_, ?_, ?_⟩
  · exact (finds_true _).bind fun _ _ => (finds_true _).bind fun _ _ => (finds_true _).bind
      fun _ _ => finds_pure isWritten_scalar
  · refine (finds_true _).bind fun _ _ => (finds_true _).bind fun _ _ => Finds.or ?_ ?_
    · exact (finds_true _).bind fun _ _ => (finds_someBody finds_fields).bind fun _ h =>
        finds_pure (isWritten_object _ h _)
    · exact (finds_true _).bind fun _ _ => finds_pure (isWritten_object none nofun _)
  · exact (finds_true _).bind fun _ _ => (finds_true _).bind fun _ _ => (finds_true _).bind
      fun _ _ => (finds_someBody finds_fields).bind fun _ h => finds_pure (isWritten_interface h _)
  · exact (finds_true _).bind fun _ _ => (finds_true _).bind fun _ _ => (finds_true _).bind
      fun _ _ => finds_pure (isWritten_union _)
  · exact (finds_true _).bind fun _ _ => (finds_true _).bind fun _ _ => (finds_true _).bind
      fun _ _ => finds_pure (isWritten_enumeration _)
  · exact (finds_true _).bind fun _ _ => (finds_true _).bind fun _ _ =>
      (finds_someBody finds_inputFields).bind fun _ h => finds_pure (isWritten_input h)

def Definition.Written : Definition → Prop
  | .type t | .extension t => t.IsWritten
  | _ => True

theorem finds_written_document : Finds document fun ds => ∀ x ∈ ds, x.Written := by
  have hdefinition : Finds definition Definition.Written := by
    refine finds_firstOf ?_
    simp only [List.forall_mem_cons, List.not_mem_nil, false_imp_iff, implies_true, and_true]
    refine ⟨?_, ?_, ?_, ?_, ?_⟩
    · exact (finds_true _).bind fun _ _ => finds_pure trivial
    · exact (finds_true _).bind fun _ _ => finds_pure trivial
    · exact finds_written_typeDefinition.bind fun _ ht => finds_pure ht
    · exact finds_written_typeExtension.bind fun _ ht => finds_pure ht
    · exact (finds_true _).bind fun _ _ => finds_pure trivial
  exact hdefinition.many1.bind fun _ hds => (finds_true _).bind fun _ _ => finds_pure hds

end Written

end Sdl

/-- All definitions and extensions of types that are read from texts are what some parts give. -/
theorem Fragment.IsParsed.written {f : Fragment} (h : f.IsParsed) :
    ∀ x ∈ f.definitions, x.Written := by
  obtain ⟨-, -, c, hread, -⟩ := Fragment.parse_eq_ok_iff.mp h
  exact Sdl.finds_written_document _ _ _ hread

def Sdl.Definition.isAbout (n : String) : Sdl.Definition → Bool
  | .type d | .extension d => d.name == n
  | _ => false

def piecesOf (n : String) (ds : List Sdl.Definition) : List Sdl.Definition :=
  ds.filter fun d => d.isAbout n

def othersThan (n : String) (ds : List Sdl.Definition) : List Sdl.Definition :=
  ds.filter fun d => !d.isAbout n

def allDefinitions (fs : List Fragment) : List Sdl.Definition := fs.flatMap (·.definitions)

namespace TypeRegistry

variable {r s t : TypeRegistry} {n k kind : String} {ds es : List Sdl.Definition} {d : TypeDef}
  {fs gs : List Fragment}

theorem filterMap_filter_of {β : Type} {part : Sdl.Definition → Option β}
    {pick : Sdl.Definition → Bool} {keep : β → Bool}
    (h : ∀ x, (if pick x then part x else none) = (part x).filter keep)
    (ds : List Sdl.Definition) :
    (ds.filter pick).filterMap part = (ds.filterMap part).filter keep := by
  rw [List.filterMap_filter, List.filter_filterMap]
  exact congrArg (List.filterMap · ds) (funext h)

theorem typeDefsOf_piecesOf (n : String) (ds : List Sdl.Definition) :
    typeDefsOf (piecesOf n ds) = (typeDefsOf ds).filter fun d => d.name == n :=
  filterMap_filter_of (fun x => by cases x <;> simp [Sdl.Definition.isAbout, Option.filter]) ds

theorem typeDefsOf_othersThan (n : String) (ds : List Sdl.Definition) :
    typeDefsOf (othersThan n ds) = (typeDefsOf ds).filter fun d => !(d.name == n) :=
  filterMap_filter_of (fun x => by cases x <;> simp [Sdl.Definition.isAbout, Option.filter]) ds

theorem extensionsOf_piecesOf (n : String) (ds : List Sdl.Definition) :
    extensionsOf (piecesOf n ds) = (extensionsOf ds).filter fun d => d.name == n :=
  filterMap_filter_of (fun x => by cases x <;> simp [Sdl.Definition.isAbout, Option.filter]) ds

theorem extensionsOf_othersThan (n : String) (ds : List Sdl.Definition) :
    extensionsOf (othersThan n ds) = (extensionsOf ds).filter fun d => !(d.name == n) :=
  filterMap_filter_of (fun x => by cases x <;> simp [Sdl.Definition.isAbout, Option.filter]) ds

theorem directivesOf_othersThan (n : String) (ds : List Sdl.Definition) :
    directivesOf (othersThan n ds) = directivesOf ds := by
  rw [directivesOf, directivesOf, othersThan, List.filterMap_filter]
  refine congrArg (List.filterMap · ds) (funext fun x => ?_)
  cases x <;> simp [Sdl.Definition.isAbout]

theorem types_withBases (r : TypeRegistry) (fs : List Fragment) :
    (r.withBases fs).types = r.types ++ typeDefsOf (allDefinitions fs) := by
  rw [allDefinitions, ← definitions_baseTypes, types, types, withBases, declare, List.map_append]

theorem names_baseTypes_eq (fs : List Fragment) :
    (baseTypes fs).map Declared.name = (typeDefsOf (allDefinitions fs)).map (·.name) := by
  rw [allDefinitions, ← definitions_baseTypes, List.map_map]
  rfl

/-- The name is defined once, and extended by definitions of that kind only. -/
structure OneKind (n kind : String) (d : TypeDef) (ds : List Sdl.Definition) : Prop where
  base : typeDefsOf (piecesOf n ds) = [d]
  name : d.name = n
  keyword : d.keyword = kind
  extensions : ∀ e ∈ extensionsOf (piecesOf n ds), e.keyword = kind

theorem OneKind.mem (h : OneKind n kind d (allDefinitions fs)) :
    n ∈ (baseTypes fs).map Declared.name := by
  have hd : d ∈ typeDefsOf (piecesOf n (allDefinitions fs)) := by
    rw [h.base]
    exact List.mem_cons_self
  rw [typeDefsOf_piecesOf] at hd
  rw [names_baseTypes_eq, ← h.name]
  exact List.mem_map_of_mem (List.mem_filter.mp hd).1

theorem OneKind.get?_withBases (h : OneKind n kind d (allDefinitions fs))
    (hfs : r.Accepts (baseTypes fs) (directiveDefs fs)) : (r.withBases fs).get? n = some d := by
  have hnew : r.types.find? (fun x => x.name == n) = none := by
    rw [← get?_eq_find?, get?_eq_none_iff]
    exact hfs.1.2 n h.mem
  have hbase := h.base
  rw [typeDefsOf_piecesOf] at hbase
  rw [get?_eq_find?, types_withBases, List.find?_append, hnew, Option.none_or, ← List.head?_filter,
    hbase]
  rfl

theorem OneKind.names_perm (h : OneKind n kind d ds) : ((typeDefsOf ds).map (·.name)).Perm
    (n :: (typeDefsOf (othersThan n ds)).map (·.name)) := by
  have hparts := List.filter_append_perm (fun d : TypeDef => d.name == n) (typeDefsOf ds)
  rw [← typeDefsOf_piecesOf, ← typeDefsOf_othersThan, h.base] at hparts
  have hnames := hparts.symm.map (·.name)
  rwa [List.map_append, List.map_singleton, h.name] at hnames

theorem get?_withBases_of_others (hk : k ≠ n)
    (h : othersThan n (allDefinitions fs) = othersThan n (allDefinitions gs)) :
    (r.withBases fs).get? k = (r.withBases gs).get? k := by
  have hothers : ∀ hs : List Fragment, (typeDefsOf (allDefinitions hs)).find? (fun x => x.name == k) =
      (typeDefsOf (othersThan n (allDefinitions hs))).find? fun x => x.name == k := by
    intro hs
    rw [typeDefsOf_othersThan, List.find?_filter]
    refine congrArg (List.find? · _) (funext fun x => ?_)
    by_cases hx : x.name = k
    · simp [hx, hk]
    · simp [hx]
  rw [get?_eq_find?, get?_eq_find?, types_withBases, types_withBases, List.find?_append,
    List.find?_append, hothers, hothers gs, h]

/-- Whether fragments can be merged depends on the kind of a type, not on its parts. -/
theorem Mergeable.of_others {d d' : TypeDef} (hfs : OneKind n kind d (allDefinitions fs))
    (hgs : OneKind n kind d' (allDefinitions gs))
    (hothers : othersThan n (allDefinitions fs) = othersThan n (allDefinitions gs))
    (h : r.Mergeable fs) : r.Mergeable gs := by
  have hbases : r.Accepts (baseTypes gs) (directiveDefs gs) := by
    constructor
    · have hnames := h.bases.1
      rw [names_baseTypes_eq] at hnames ⊢
      refine hnames.perm (hfs.names_perm.trans ?_)
      rw [hothers]
      exact hgs.names_perm.symm
    · have hdirectives : directiveDefs fs = directiveDefs gs := by
        rw [directiveDefs_eq, directiveDefs_eq, ← directivesOf_othersThan n,
          ← directivesOf_othersThan n (gs.flatMap (·.definitions))]
        exact congrArg directivesOf hothers
      rw [← hdirectives]
      exact h.bases.2
  refine ⟨hbases, fun e he => ?_⟩
  rw [extensions_eq] at he
  by_cases hname : e.name = n
  · have hpiece : e ∈ extensionsOf (piecesOf n (allDefinitions gs)) := by
      rw [extensionsOf_piecesOf]
      exact List.mem_filter.mpr ⟨he, beq_iff_eq.mpr hname⟩
    exact ⟨d', hname ▸ hgs.get?_withBases hbases,
      hgs.keyword.trans (hgs.extensions e hpiece).symm⟩
  · have hother : e ∈ extensionsOf (othersThan n (allDefinitions gs)) := by
      rw [extensionsOf_othersThan]
      exact List.mem_filter.mpr ⟨he, by simpa using hname⟩
    rw [← hothers, extensionsOf_othersThan] at hother
    have hmem : e ∈ extensions fs := by
      rw [extensions_eq]
      exact (List.mem_filter.mp hother).1
    obtain ⟨x, hx, hkind⟩ := h.extendable e hmem
    exact ⟨x, get?_withBases_of_others hname hothers ▸ hx, hkind⟩

theorem get?_mergeFragments (h : r.mergeFragments fs = .done s) (k : String) :
    s.get? k = ((r.withBases fs).get? k).map fun d =>
      ((extensions fs).filter fun e => e.name = k).foldl TypeDef.extended d := by
  obtain ⟨-, rfl⟩ := mergeFragments_eq_done_iff.mp h
  rw [applyRoots_eq]
  exact get?_foldl_extended (extensions fs) (r.withBases fs) k

theorem filter_extensions_eq (fs : List Fragment) (k : String) :
    ((extensions fs).filter fun e => e.name = k) = extensionsOf (piecesOf k (allDefinitions fs)) := by
  rw [extensionsOf_piecesOf, extensions_eq]
  rfl

theorem keyword_of_kind {w x : WrittenType} (h : x.kind = w.kind) :
    x.definition.keyword = w.definition.keyword := by
  unfold WrittenType.definition TypeDef.keyword
  rw [h]
  cases w.kind <;> rfl

theorem extensionsOf_pieces_of_others (hk : k ≠ n) (h : othersThan n ds = othersThan n es) :
    extensionsOf (piecesOf k ds) = extensionsOf (piecesOf k es) := by
  have hothers : ∀ ds : List Sdl.Definition,
      extensionsOf (piecesOf k ds) = (extensionsOf (othersThan n ds)).filter fun d => d.name == k := by
    intro ds
    rw [extensionsOf_piecesOf, extensionsOf_othersThan, List.filter_filter]
    refine congrArg (List.filter · _) (funext fun x => ?_)
    by_cases hx : x.name = k
    · simp [hx, hk]
    · simp [hx]
  rw [hothers, hothers es, h]

/-- Cutting a definition into extensions is invisible. Take fragments that define a type in pieces,
a base definition and any number of extensions anywhere among other definitions, such that the
pieces in order have the parts of a whole definition, in which no interface and no member is named
twice; and fragments with that definition in place of the pieces. Both can be merged into a registry
or neither, and then the type is the whole definition both times, and every other type is the same. -/
theorem mergeFragments_cut (r : TypeRegistry) {w base : WrittenType} {exts : List WrittenType}
    {fs gs : List Fragment} (hw : w.parts.Distinct) (hcut : w.CutInto base exts)
    (hbase : typeDefsOf (piecesOf w.name (allDefinitions fs)) = [base.definition])
    (hexts : extensionsOf (piecesOf w.name (allDefinitions fs)) = exts.map WrittenType.definition)
    (hwhole : piecesOf w.name (allDefinitions gs) = [.type w.definition])
    (hothers : othersThan w.name (allDefinitions fs) = othersThan w.name (allDefinitions gs)) :
    ((∃ s, r.mergeFragments fs = .done s) ↔ ∃ t, r.mergeFragments gs = .done t) ∧
      ∀ s t, r.mergeFragments fs = .done s → r.mergeFragments gs = .done t →
        s.get? w.name = some w.definition ∧ ∀ n, s.get? n = t.get? n := by
  obtain ⟨⟨hname, hkind⟩, halike⟩ := List.forall_mem_cons.mp hcut.alike
  have hfs : OneKind w.name w.definition.keyword base.definition (allDefinitions fs) := by
    refine ⟨hbase, hname, keyword_of_kind hkind, ?_⟩
    rw [hexts]
    exact List.forall_mem_map.mpr fun x hx => keyword_of_kind (halike x hx).2
  have hnone : extensionsOf (piecesOf w.name (allDefinitions gs)) = [] := by
    rw [hwhole]
    rfl
  have hgs : OneKind w.name w.definition.keyword w.definition (allDefinitions gs) := by
    refine ⟨by rw [hwhole]; rfl, rfl, rfl, ?_⟩
    rw [hnone]
    exact fun e he => absurd he List.not_mem_nil
  rw [exists_mergeFragments_iff, exists_mergeFragments_iff]
  refine ⟨⟨.of_others hfs hgs hothers, .of_others hgs hfs hothers.symm⟩, fun s t hs ht => ?_⟩
  have hsget : s.get? w.name = some w.definition := by
    rw [get?_mergeFragments hs, hfs.get?_withBases (mergeFragments_eq_done_iff.mp hs).1.bases,
      Option.map_some, filter_extensions_eq, hexts, hcut.foldl_extended hw]
  have htget : t.get? w.name = some w.definition := by
    rw [get?_mergeFragments ht, hgs.get?_withBases (mergeFragments_eq_done_iff.mp ht).1.bases,
      Option.map_some, filter_extensions_eq, hnone, List.foldl_nil]
  refine ⟨hsget, fun n => ?_⟩
  by_cases hn : n = w.name
  · rw [hn, hsget, htget]
  · rw [get?_mergeFragments hs, get?_mergeFragments ht, get?_withBases_of_others hn hothers,
      filter_extensions_eq, filter_extensions_eq, extensionsOf_pieces_of_others hn hothers]

theorem mergeFragments_cut_show :
    let title : FieldDef := ⟨"title", none, .named "String", [], [], none⟩
    let year : FieldDef := ⟨"year", none, .named "Int", [], [], none⟩
    let again : FieldDef := ⟨"title", some "The title", .named "String", [], [], none⟩
    let base : WrittenType :=
      ⟨"Show", some "A show", .object, ⟨[⟨"key", []⟩], ["Node"], [], [title], [], []⟩⟩
    let first : WrittenType := ⟨"Show", none, .object, ⟨[], [], [], [year], [], []⟩⟩
    let second : WrittenType := ⟨"Show", none, .object, ⟨[⟨"tag", []⟩], ["Item"], [], [again], [], []⟩⟩
    let whole : WrittenType := ⟨"Show", some "A show", .object,
      ⟨[⟨"key", []⟩, ⟨"tag", []⟩], ["Node", "Item"], [], [title, year, again], [], []⟩⟩
    let query : Sdl.Definition := .type ⟨"Query", none, [], .object [] []⟩
    let cut : List Fragment := [⟨"a", "", [.extension first.definition, query]⟩,
      ⟨"b", "", [.extension second.definition, .type base.definition]⟩]
    let uncut : List Fragment := [⟨"c", "", [query, .type whole.definition]⟩]
    ∃ s t, initial.mergeFragments cut = .done s ∧ initial.mergeFragments uncut = .done t ∧
      s.get? "Show" = some whole.definition ∧ t.get? "Show" = some whole.definition ∧
      whole.definition.fields?.map Entries.keys = some ["title", "year"] := by
  intro title year again base first second whole query cut uncut
  have hw : whole.parts.Distinct := ⟨by decide, by decide⟩
  have hcut : whole.CutInto base [first, second] := ⟨by simp [base, first, second, whole], rfl, rfl⟩
  obtain ⟨hmerged, hsame⟩ := mergeFragments_cut initial hw hcut
    (show typeDefsOf (piecesOf "Show" (allDefinitions cut)) = [base.definition] from rfl) rfl
    (show piecesOf "Show" (allDefinitions uncut) = [.type whole.definition] from rfl) rfl
  have hs := Registration.eq_done_of_failure (x := initial.mergeFragments cut) (by decide)
  obtain ⟨t, ht⟩ := hmerged.mp ⟨_, hs⟩
  obtain ⟨hget, hall⟩ := hsame _ t hs ht
  exact ⟨_, t, hs, ht, hget, hall "Show" ▸ hget, by decide⟩

end TypeRegistry

end SchemaAssembly
