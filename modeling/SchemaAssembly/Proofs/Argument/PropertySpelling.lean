import SchemaAssembly.Fetcher.Basic
import SchemaAssembly.Proofs.Argument.Respelling

/-!
Mapped input objects read as properties. The spelling of an ASCII name is its own spelling, so a
mapped object has nothing under a name that is spelled otherwise, and the property is found under
the spelling.
-/

set_option autoImplicit false

namespace SchemaAssembly

def IsAscii (name : String) : Prop := ∀ c ∈ name.toList, c.toNat < 128

-- By the characters of the name: there is also an instance that runs through all characters.
instance (name : String) : Decidable (IsAscii name) :=
  List.decidableBAll _ name.toList

section Spelling

variable {first : Bool} {c d : Char} {cs : List Char} {name : String}

theorem spellChar_of_not_uppercase (h : isUppercase c = false) : spellChar first c = [c] := by
  simp [spellChar, h]

theorem spellChars_of_not_uppercase (h : ∀ c ∈ cs, isUppercase c = false) :
    spellChars cs = cs := by
  cases cs with
  | nil => rfl
  | cons c rest =>
    obtain ⟨hc, hrest⟩ := List.forall_mem_cons.mp h
    have hspelled : rest.flatMap (spellChar false) = rest.flatMap fun d => [d] :=
      List.flatMap_congr fun d hd => spellChar_of_not_uppercase (hrest d hd)
    rw [spellChars, spellChar_of_not_uppercase hc, hspelled, List.flatMap_singleton',
      List.singleton_append]

theorem all_not_uppercase_spellChar : ∀ n < 128, ∀ first,
    (spellChar first (Char.ofNat n)).all (fun d => !isUppercase d) = true := by
  decide +kernel

theorem not_uppercase_of_mem_spellChar (hc : c.toNat < 128) (hd : d ∈ spellChar first c) :
    isUppercase d = false := by
  have hall := all_not_uppercase_spellChar c.toNat hc first
  rw [Char.ofNat_toNat] at hall
  simpa using List.all_eq_true.mp hall d hd

theorem not_uppercase_of_mem_spellChars (h : ∀ c ∈ cs, c.toNat < 128) (hd : d ∈ spellChars cs) :
    isUppercase d = false := by
  cases cs with
  | nil => exact absurd hd List.not_mem_nil
  | cons c rest =>
    obtain ⟨hc, hrest⟩ := List.forall_mem_cons.mp h
    rcases List.mem_append.mp hd with hd | hd
    · exact not_uppercase_of_mem_spellChar hc hd
    · obtain ⟨e, he, hd⟩ := List.mem_flatMap.mp hd
      exact not_uppercase_of_mem_spellChar (hrest e he) hd

/-- Beyond ASCII there are capitals without a lower case, which get one more underscore each
time. -/
theorem snakeCase_snakeCase (h : IsAscii name) : snakeCase (snakeCase name) = snakeCase name := by
  have hlower : ∀ d ∈ spellChars name.toList, isUppercase d = false := fun d hd =>
    not_uppercase_of_mem_spellChars h hd
  rw [snakeCase, snakeCase, String.toList_ofList, spellChars_of_not_uppercase hlower]

end Spelling

section Reading

variable {r : TypeRegistry} {type : String} {fields : Entries InputField}
  {members : List (String × Json)} {name : String} {w : Json}

theorem readProperty_object (members : List (String × Json)) (name : String) :
    readProperty (Json.object members) name =
      .ok ((((Json.object members).get? name).or
        ((Json.object members).get? (snakeCase name))).getD .null) := rfl

theorem snakeCase_of_get?_respell (hfields : r.inputFields? type = some fields)
    (hascii : ∀ m ∈ members, IsAscii m.1)
    (h : (respell r type (.obj members)).get? name = some w) : snakeCase name = name := by
  rw [get?_respell hfields] at h
  obtain ⟨m, hm, -⟩ := Option.map_eq_some_iff.mp h
  have hmem : m ∈ members := List.mem_reverse.mp (List.mem_of_find?_eq_some hm)
  obtain rfl : snakeCase m.1 = name := by simpa using List.find?_some hm
  exact snakeCase_snakeCase (hascii m hmem)

theorem readProperty_respell (hfields : r.inputFields? type = some fields)
    (hascii : ∀ m ∈ members, IsAscii m.1)
    (hw : (respell r type (.obj members)).get? (snakeCase name) = some w) :
    readProperty (respell r type (.obj members)) name = .ok w := by
  have hread := readProperty_object (members.map fun m => (snakeCase m.1, mapMember r fields m)) name
  rw [← respell_obj hfields] at hread
  rw [hread]
  cases hname : (respell r type (.obj members)).get? name with
  | none => rw [hw, Option.none_or, Option.getD_some]
  | some x =>
    rw [snakeCase_of_get?_respell hfields hascii hname, hname] at hw
    rw [Option.some_or, Option.getD_some, Option.some.inj hw]

end Reading

namespace InputMapper

variable {r : TypeRegistry} {type : TypeRef} {fields : Entries InputField}
  {members : List (String × Json)} {f : InputField} {name : String} {v : Json}

/-- A declared field of a mapped object reads as the mapping of its value, which is the value itself
unless the type of the field is an input object. -/
theorem readProperty_standard (hfields : r.inputFields? type.innermost = some fields)
    (hascii : ∀ m ∈ members, IsAscii m.1) (hapart : (members.map fun m => snakeCase m.1).Nodup)
    (hf : fields.get? name = some f) (hv : (name, v) ∈ members) :
    ∃ mapped w, standard (.obj members) (some type) (some r) = .ok mapped ∧
      standard v (some f.type) (some r) = .ok w ∧
      readProperty mapped name = .ok w ∧
      (r.inputFields? f.type.innermost = none → w = v) := by
  have hmember : mapMember r fields (name, v) = respell r f.type.innermost v :=
    mapMember_of_declared hf v
  have hget := get?_respell_of_mem hfields hv fun a ha hspelled =>
    mapMember_eq_of_nodup hapart ha hv hspelled
  rw [hmember] at hget
  exact ⟨respell r type.innermost (.obj members), respell r f.type.innermost v, rfl, rfl,
    readProperty_respell hfields hascii hget, fun hnone => respell_of_none hnone v⟩

def showFilterFields : Entries InputField :=
  [("extraData", ⟨"extraData", none, .option (.named "JSON"), none, []⟩),
   ("tagFilters", ⟨"tagFilters", none, .list (.named "TagFilter"), none, []⟩)]

def filterTypes : TypeRegistry :=
  { TypeRegistry.initial with declared := TypeRegistry.initial.declared ++
      [⟨⟨"JSON", none, [], .scalar⟩, "filters"⟩,
       ⟨⟨"TagFilter", none, [], .input
          [("tagName", ⟨"tagName", none, .named "String", none, []⟩)]⟩, "filters"⟩,
       ⟨⟨"ShowFilter", none, [], .input showFilterFields⟩, "filters"⟩] }

theorem readProperty_standard_showFilter :
    let data : Json := .obj [("userId", .int 1)]
    let tags : Json := .list [.obj [("tagName", .str "x")]]
    let members := [("extraData", data), ("tagFilters", tags)]
    ∃ mapped, standard (.obj members) (some (.named "ShowFilter")) (some filterTypes) = .ok mapped ∧
      readProperty mapped "extraData" = .ok data ∧
      readProperty mapped "tagFilters" = .ok (.list [.obj [("tag_name", .str "x")]]) := by
  intro data tags members
  have hfields : filterTypes.inputFields? (TypeRef.named "ShowFilter").innermost =
      some showFilterFields := rfl
  have hascii : ∀ m ∈ members, IsAscii m.1 := by
    have hnames : ∀ name ∈ members.map (·.1), IsAscii name := by decide
    exact fun m hm => hnames m.1 (List.mem_map_of_mem hm)
  have hapart : (members.map fun m => snakeCase m.1).Nodup := by
    have hnames : ((members.map (·.1)).map snakeCase).Nodup := by decide +kernel
    rwa [List.map_map] at hnames
  have hdata : ("extraData", data) ∈ members := List.mem_cons_self
  have htags : ("tagFilters", tags) ∈ members := List.mem_cons_of_mem _ List.mem_cons_self
  obtain ⟨mapped, w, hmapped, -, hread, hsame⟩ :=
    readProperty_standard hfields hascii hapart rfl hdata
  obtain ⟨again, u, hagain, hu, hlist, -⟩ :=
    readProperty_standard hfields hascii hapart rfl htags
  obtain rfl : mapped = again := Except.ok.inj (hmapped.symm.trans hagain)
  obtain rfl : .list [.obj [("tag_name", .str "x")]] = u := Except.ok.inj hu
  rw [hsame rfl] at hread
  exact ⟨mapped, hmapped, hread, hlist⟩

end InputMapper

end SchemaAssembly
