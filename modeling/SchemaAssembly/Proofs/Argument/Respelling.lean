import Mathlib.Data.List.Nodup
import SchemaAssembly.Argument.Mapper
import SchemaAssembly.Error.Response

/-!
What the standard mapper keeps of input objects. Members whose names get one spelling meet in the
mapped object, and the last of them displaces the others; a member that meets no other one stands
there, mapped, under its spelling.
-/

set_option autoImplicit false

namespace SchemaAssembly

section Objects

variable {α β : Type} {name other : String} {members : List (String × α)}

theorem findNamed?_insertNamed_self (value : α) (members : List (String × α)) :
    findNamed? name (insertNamed name value members) = some value := by
  induction members with
  | nil => simp [insertNamed, findNamed?]
  | cons m rest ih =>
    obtain ⟨n, v⟩ := m
    by_cases hn : name = n
    · simp [insertNamed, findNamed?, hn]
    · by_cases hbefore : nameBefore name n = true
      · simp [insertNamed, findNamed?, hn, hbefore]
      · simp [insertNamed, findNamed?, hn, hbefore, Ne.symm hn, ih]

theorem findNamed?_insertNamed_of_ne (value : α) (members : List (String × α))
    (h : other ≠ name) :
    findNamed? other (insertNamed name value members) = findNamed? other members := by
  induction members with
  | nil => simp [insertNamed, findNamed?, Ne.symm h]
  | cons m rest ih =>
    obtain ⟨n, v⟩ := m
    by_cases hn : name = n
    · simp [insertNamed, findNamed?, ← hn, Ne.symm h]
    · by_cases hbefore : nameBefore name n = true
      · simp [insertNamed, findNamed?, hn, hbefore, Ne.symm h]
      · simp [insertNamed, findNamed?, hn, hbefore, ih]

theorem findNamed?_append (first second : List (String × α)) :
    findNamed? name (first ++ second) = (findNamed? name first).or (findNamed? name second) := by
  induction first with
  | nil => rfl
  | cons m rest ih =>
    obtain ⟨n, v⟩ := m
    by_cases hn : n = name <;> simp [findNamed?, hn, ih]

theorem findNamed?_foldl_insertNamed (members before : List (String × α)) :
    findNamed? name (members.foldl (fun acc m => insertNamed m.1 m.2 acc) before) =
      (findNamed? name members.reverse).or (findNamed? name before) := by
  induction members generalizing before with
  | nil => rfl
  | cons m rest ih =>
    obtain ⟨n, v⟩ := m
    rw [List.foldl_cons, ih, List.reverse_cons, findNamed?_append, Option.or_assoc]
    congr 1
    by_cases hn : name = n
    · subst hn
      rw [findNamed?_insertNamed_self]
      simp [findNamed?]
    · rw [findNamed?_insertNamed_of_ne _ _ hn]
      simp [findNamed?, Ne.symm hn]

theorem findNamed?_map (label : β → String) (value : β → α) (l : List β) :
    findNamed? name (l.map fun m => (label m, value m)) =
      (l.find? fun m => label m == name).map value := by
  induction l with
  | nil => rfl
  | cons m rest ih =>
    by_cases hm : label m = name <;> simp [findNamed?, hm, ih]

theorem Json.get?_object (name : String) (members : List (String × Json)) :
    (Json.object members).get? name = findNamed? name members.reverse := by
  rw [Json.object, Json.get?, findNamed?_foldl_insertNamed, findNamed?, Option.or_none]

end Objects

def mapMember (r : TypeRegistry) (fields : Entries InputField) (m : String × Json) : Json :=
  match fields.get? m.1 with
  | some f => respell r f.type.innermost m.2
  | none => m.2

section Respelling

variable {r : TypeRegistry} {type : String} {fields : Entries InputField}
  {members : List (String × Json)} {m : String × Json}

theorem mapMember_of_declared {name : String} {f : InputField} (h : fields.get? name = some f)
    (v : Json) : mapMember r fields (name, v) = respell r f.type.innermost v := by
  rw [mapMember, h]

theorem respellItems_eq_map (r : TypeRegistry) (type : String) (items : List Json) :
    respellItems r type items = items.map (respell r type) := by
  induction items with
  | nil => rfl
  | cons v rest ih => rw [respellItems, ih, List.map_cons]

theorem respellMembers_eq_map (r : TypeRegistry) (fields : Entries InputField)
    (members : List (String × Json)) :
    respellMembers r fields members =
      members.map fun m => (snakeCase m.1, mapMember r fields m) := by
  induction members with
  | nil => rfl
  | cons m rest ih =>
    obtain ⟨n, v⟩ := m
    rw [respellMembers, ih, List.map_cons, mapMember, fieldTypeName?]
    cases fields.get? n <;> rfl

theorem respell_of_none (h : r.inputFields? type = none) (v : Json) : respell r type v = v := by
  cases v with
  | obj members => rw [respell, h]
  | list items => rw [respell, h]
  | _ => rfl

theorem respell_list (h : r.inputFields? type = some fields) (items : List Json) :
    respell r type (.list items) = .list (items.map (respell r type)) := by
  rw [respell, h]
  exact congrArg Json.list (respellItems_eq_map r type items)

theorem respell_obj (h : r.inputFields? type = some fields) (members : List (String × Json)) :
    respell r type (.obj members) =
      .object (members.map fun m => (snakeCase m.1, mapMember r fields m)) := by
  rw [respell, h]
  exact congrArg Json.object (respellMembers_eq_map r fields members)

theorem get?_respell (h : r.inputFields? type = some fields) (name : String)
    (members : List (String × Json)) :
    (respell r type (.obj members)).get? name =
      (members.reverse.find? fun m => snakeCase m.1 == name).map (mapMember r fields) := by
  rw [respell_obj h, Json.get?_object, ← List.map_reverse, findNamed?_map]

theorem get?_respell_of_mem (h : r.inputFields? type = some fields) (hm : m ∈ members)
    (hmeet : ∀ a ∈ members, snakeCase a.1 = snakeCase m.1 →
      mapMember r fields a = mapMember r fields m) :
    (respell r type (.obj members)).get? (snakeCase m.1) = some (mapMember r fields m) := by
  rw [get?_respell h]
  cases hlast : members.reverse.find? fun a => snakeCase a.1 == snakeCase m.1 with
  | none =>
    have hnone := List.find?_eq_none.mp hlast m (List.mem_reverse.mpr hm)
    exact absurd (beq_self_eq_true _) hnone
  | some a =>
    have ha : a ∈ members := List.mem_reverse.mp (List.mem_of_find?_eq_some hlast)
    have hspelled : snakeCase a.1 = snakeCase m.1 := by simpa using List.find?_some hlast
    rw [Option.map_some, hmeet a ha hspelled]

theorem mapMember_eq_of_nodup (h : (members.map fun m => snakeCase m.1).Nodup)
    {a b : String × Json} (ha : a ∈ members) (hb : b ∈ members)
    (hspelled : snakeCase a.1 = snakeCase b.1) : mapMember r fields a = mapMember r fields b :=
  congrArg (mapMember r fields) (List.inj_on_of_nodup_map h ha hb hspelled)

end Respelling

def Json.at? : List PathSegment → Json → Option Json
  | [], v => some v
  | .field name :: path, v => (v.get? name).bind (at? path)
  | .index i :: path, v => (v.asList?.bind fun items => items[i]?).bind (at? path)

def PathSegment.spelled : PathSegment → PathSegment
  | field name => field (snakeCase name)
  | index i => index i

/-- The input objects in a value of the named type, through lists and through the declared fields of
other input objects: the path to each one, the fields that its type declares, and its members. -/
inductive InputObjectAt (r : TypeRegistry) :
    String → Json → List PathSegment → Entries InputField → List (String × Json) → Prop
  | here {type : String} {fields : Entries InputField} {members : List (String × Json)}
      (declared : r.inputFields? type = some fields) :
      InputObjectAt r type (.obj members) [] fields members
  | item {type : String} {items : List Json} {i : Nat} {v : Json} {path : List PathSegment}
      {fields : Entries InputField} {members : List (String × Json)} (found : items[i]? = some v)
      (inner : InputObjectAt r type v path fields members) :
      InputObjectAt r type (.list items) (.index i :: path) fields members
  | member {type name : String} {outer : Entries InputField} {f : InputField}
      {siblings : List (String × Json)} {v : Json} {path : List PathSegment}
      {fields : Entries InputField} {members : List (String × Json)}
      (declared : r.inputFields? type = some outer) (field : outer.get? name = some f)
      (found : (name, v) ∈ siblings)
      (inner : InputObjectAt r f.type.innermost v path fields members) :
      InputObjectAt r type (.obj siblings) (.field name :: path) fields members

/-- Every member of every input object in `v` stands in `w`, mapped, under its spelling. -/
def MembersKept (r : TypeRegistry) (type : String) (v w : Json) : Prop :=
  ∀ (path : List PathSegment) (fields : Entries InputField) (members : List (String × Json)),
    InputObjectAt r type v path fields members → ∀ m ∈ members,
      w.at? (path.map .spelled ++ [.field (snakeCase m.1)]) = some (mapMember r fields m)

/-- Members of one input object whose names get one spelling have one mapping. -/
def MeetingAlike (r : TypeRegistry) (type : String) (v : Json) : Prop :=
  ∀ (path : List PathSegment) (fields : Entries InputField) (members : List (String × Json)),
    InputObjectAt r type v path fields members → ∀ a ∈ members, ∀ b ∈ members,
      snakeCase a.1 = snakeCase b.1 → mapMember r fields a = mapMember r fields b

section Levels

variable {r : TypeRegistry} {type : String} {v : Json} {path : List PathSegment}
  {fields : Entries InputField} {members : List (String × Json)} {m : String × Json}

theorem InputObjectAt.inputFields?_isSome (h : InputObjectAt r type v path fields members) :
    ∃ declared, r.inputFields? type = some declared := by
  induction h with
  | here declared => exact ⟨_, declared⟩
  | item _ _ ih => exact ih
  | member declared _ _ _ _ => exact ⟨_, declared⟩

theorem MeetingAlike.item {items : List Json} {i : Nat} (h : MeetingAlike r type (.list items))
    (hi : items[i]? = some v) : MeetingAlike r type v :=
  fun path fields members hat => h (.index i :: path) fields members (.item hi hat)

theorem MeetingAlike.member {name : String} {f : InputField}
    (h : MeetingAlike r type (.obj members)) (hfields : r.inputFields? type = some fields)
    (hf : fields.get? name = some f) (hv : (name, v) ∈ members) :
    MeetingAlike r f.type.innermost v :=
  fun path inner innerMembers hat =>
    h (.field name :: path) inner innerMembers (.member hfields hf hv hat)

theorem at?_respell (hat : InputObjectAt r type v path fields members)
    (halike : MeetingAlike r type v) (hm : m ∈ members) :
    (respell r type v).at? (path.map .spelled ++ [.field (snakeCase m.1)]) =
      some (mapMember r fields m) := by
  induction hat with
  | here declared =>
    have hget := get?_respell_of_mem declared hm fun a ha =>
      halike [] _ _ (.here declared) a ha m hm
    rw [List.map_nil, List.nil_append, Json.at?, hget]
    rfl
  | @item type items i v path fields members found inner ih =>
    obtain ⟨declared, hdeclared⟩ := inner.inputFields?_isSome
    have hitem : (items.map (respell r type))[i]? = some (respell r type v) := by
      rw [List.getElem?_map, found, Option.map_some]
    rw [respell_list hdeclared, List.map_cons, List.cons_append, PathSegment.spelled, Json.at?,
      Json.asList?, Option.bind_some, hitem, Option.bind_some]
    exact ih (halike.item found) hm
  | @member type name outer f siblings v path fields members declared field found inner ih =>
    have hget := get?_respell_of_mem declared found fun a ha =>
      halike [] outer siblings (.here declared) a ha _ found
    rw [mapMember_of_declared field] at hget
    rw [List.map_cons, List.cons_append, PathSegment.spelled, Json.at?, hget, Option.bind_some]
    exact ih (halike.member declared field found) hm

theorem membersKept_iff : MembersKept r type v (respell r type v) ↔ MeetingAlike r type v := by
  constructor
  · intro hkept path fields members hat a ha b hb hspelled
    have hfirst := hkept path fields members hat a ha
    rw [hspelled, hkept path fields members hat b hb] at hfirst
    exact (Option.some.inj hfirst).symm
  · exact fun halike path fields members hat m hm => at?_respell hat halike hm

theorem membersKept_of_nodup
    (h : ∀ (path : List PathSegment) (fields : Entries InputField)
      (members : List (String × Json)), InputObjectAt r type v path fields members →
        (members.map fun m => snakeCase m.1).Nodup) :
    MembersKept r type v (respell r type v) :=
  membersKept_iff.mpr fun path fields members hat _ ha _ hb hspelled =>
    mapMember_eq_of_nodup (h path fields members hat) ha hb hspelled

end Levels

namespace InputMapper

/-- Every member of every input object comes through under its spelling just if members of one
object whose names get one spelling have one mapping. Where they have not, the last of them stands
under the spelling, and the others are gone. -/
theorem standard_keeps_iff (r : TypeRegistry) (type : TypeRef) (v : Json) :
    ∃ w, standard v (some type) (some r) = .ok w ∧
      (MembersKept r type.innermost v w ↔ MeetingAlike r type.innermost v) ∧
      ∀ (fields : Entries InputField) (members : List (String × Json)),
        r.inputFields? type.innermost = some fields → v = .obj members → ∀ name,
          w.get? name =
            (members.reverse.find? fun m => snakeCase m.1 == name).map (mapMember r fields) := by
  refine ⟨respell r type.innermost v, rfl, membersKept_iff, ?_⟩
  rintro fields members hfields rfl name
  exact get?_respell hfields name members

def releaseTypes : TypeRegistry :=
  let field (name : String) : String × InputField :=
    (name, ⟨name, none, .option (.named "Int"), none, []⟩)
  { TypeRegistry.initial with declared := TypeRegistry.initial.declared ++
      [⟨⟨"FilmInput", none, [], .input [field "releaseYear", field "release_year"]⟩, "films"⟩] }

/-- Of two declared fields that are spelled alike, only the second one comes through. -/
theorem standard_loses_member :
    let v : Json := .obj [("releaseYear", .int 2017), ("release_year", .int 1999)]
    let w : Json := .obj [("release_year", .int 1999)]
    standard v (some (.named "FilmInput")) (some releaseTypes) = .ok w ∧
      ¬ MembersKept releaseTypes "FilmInput" v w := by
  intro v w
  refine ⟨rfl, fun hkept => ?_⟩
  have hyear : some (Json.int 1999) = some (Json.int 2017) :=
    hkept [] _ _ (.here rfl) ("releaseYear", .int 2017) List.mem_cons_self
  exact absurd (Json.int.inj (Option.some.inj hyear)) (by decide)

end InputMapper

end SchemaAssembly
