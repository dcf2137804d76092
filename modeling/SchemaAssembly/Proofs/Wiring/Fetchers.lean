import SchemaAssembly.Assembly.Assembler

/-!
The fetchers in a code registry. Every pass that enters fetchers is known by what is found at some
coordinates after it; the wirings come last, as layers around whatever was found.
-/

set_option autoImplicit false

namespace SchemaAssembly

/-- What every step leaves alone, a run leaves alone. -/
theorem foldl_keeps {σ α β : Type} (look : σ → α) {step : σ → β → σ}
    (hstep : ∀ s x, look (step s x) = look s) (xs : List β) (s : σ) :
    look (xs.foldl step s) = look s := by
  induction xs generalizing s with
  | nil => rfl
  | cons x rest ih => rw [List.foldl_cons, ih, hstep]

namespace FetcherTable

variable {c d : Coordinates} {f : Fetcher} {t : FetcherTable}

theorem get?_put (c d : Coordinates) (f : Fetcher) (t : FetcherTable) :
    get? (put c f t) d = if c = d then some f else get? t d := by
  induction t with
  | nil => simp [put, get?, CoordinateMap.get?]
  | cons e rest ih =>
    obtain ⟨k, g⟩ := e
    simp only [get?] at ih
    by_cases hk : k = c
    · by_cases hd : c = d <;> simp [put, get?, CoordinateMap.get?, hk, hd]
    · by_cases hd : k = d
      · subst hd
        simp [put, get?, CoordinateMap.get?, hk, Ne.symm hk]
      · simp [put, get?, CoordinateMap.get?, hk, hd, ih]

theorem mem_keys_put : d ∈ (put c f t).map (·.1) ↔ d = c ∨ d ∈ t.map (·.1) := by
  induction t with
  | nil => simp [put]
  | cons e rest ih =>
    obtain ⟨k, g⟩ := e
    by_cases hk : k = c
    · simp [put, hk]
    · simp only [put, hk, if_false, List.map_cons, List.mem_cons, ih]
      exact or_left_comm

theorem nodup_put (h : (t.map (·.1)).Nodup) : ((put c f t).map (·.1)).Nodup := by
  induction t with
  | nil => simp [put]
  | cons e rest ih =>
    obtain ⟨k, g⟩ := e
    obtain ⟨hnot, hrest⟩ := List.nodup_cons.mp h
    by_cases hk : k = c
    · simpa [put, hk] using h
    · rw [put, if_neg hk, List.map_cons, List.nodup_cons, mem_keys_put, not_or]
      exact ⟨⟨hk, hnot⟩, ih hrest⟩

theorem get?_eq_find? (t : FetcherTable) (c : Coordinates) :
    get? t c = (t.find? fun e => e.1 = c).map (·.2) := by
  induction t with
  | nil => rfl
  | cons e rest ih =>
    obtain ⟨k, g⟩ := e
    simp only [get?] at ih
    by_cases hk : k = c <;> simp [get?, CoordinateMap.get?, hk, ih]

end FetcherTable

namespace CodeRegistry

variable {r : CodeRegistry} {c : Coordinates}

@[simp]
theorem bound?_bind (r : CodeRegistry) (c d : Coordinates) (f : Fetcher) :
    (r.bind c f).bound? d = if c = d then some f else r.bound? d :=
  FetcherTable.get?_put c d f r.fetchers

@[simp]
theorem bound?_setResolver (name : String) (resolver : TypeResolver) :
    (r.setResolver name resolver).bound? c = r.bound? c := rfl

theorem bound?_mapFetchers (wrap : Coordinates → Fetcher → Fetcher) (r : CodeRegistry)
    (c : Coordinates) : (r.mapFetchers wrap).bound? c = (r.bound? c).map (wrap c) := by
  obtain ⟨table, _, _⟩ := r
  simp only [bound?, mapFetchers]
  induction table with
  | nil => rfl
  | cons e rest ih =>
    obtain ⟨d, g⟩ := e
    simp only [FetcherTable.get?] at ih
    by_cases hd : d = c <;> simp [FetcherTable.get?, CoordinateMap.get?, hd, ih]

theorem bound?_foldl_bind {β : Type} {key : β → Coordinates} {value : β → Fetcher} {xs : List β}
    (hd : (xs.map key).Nodup) (r : CodeRegistry) (c : Coordinates) :
    (xs.foldl (fun r x => r.bind (key x) (value x)) r).bound? c =
      ((xs.find? fun x => key x = c).map value).or (r.bound? c) := by
  induction xs generalizing r with
  | nil => simp
  | cons x rest ih =>
    obtain ⟨hnot, hrest⟩ := List.nodup_cons.mp hd
    rw [List.foldl_cons, ih hrest, bound?_bind]
    by_cases hx : key x = c
    · have hnone : (rest.find? fun y => key y = c) = none := by
        rw [List.find?_eq_none]
        intro y hy hyc
        exact hnot (List.mem_map.mpr ⟨y, hy, (of_decide_eq_true hyc).trans hx.symm⟩)
      simp [hx, hnone]
    · simp [hx]

theorem bound?_foldl_bind_self (value : Coordinates → Fetcher) (cs : List Coordinates)
    (r : CodeRegistry) (c : Coordinates) :
    (cs.foldl (fun r d => r.bind d (value d)) r).bound? c =
      (if c ∈ cs then some (value c) else none).or (r.bound? c) := by
  induction cs generalizing r with
  | nil => simp
  | cons d rest ih =>
    rw [List.foldl_cons, ih, bound?_bind]
    by_cases hd : d = c
    · subst hd
      by_cases hrest : d ∈ rest <;> simp [hrest]
    · simp [hd, Ne.symm hd]

end CodeRegistry

/-- Whether the coordinates are those of an object type's field that carries a directive with one of
these names. -/
def TypeRegistry.carriesAt (r : TypeRegistry) (names : String → Bool) (c : Coordinates) : Bool :=
  r.types.any fun d =>
    match d.body with
    | .object fields _ => d.name == c.parentType && fields.values.any fun field =>
        field.name == c.field && field.directives.any fun use => names use.name
    | _ => false

/-- What is put around the fetcher at some coordinates, the innermost layer first: the wirings of
the directives that the field carries, in the order of their uses, then those of all fields. -/
def fieldLayers (named? : String → Option DirectiveWiring) (globals : List DirectiveWiring)
    (types : TypeRegistry) (c : Coordinates) : List (Fetcher → Fetcher) :=
  match types.field? c with
  | none => []
  | some field =>
    (field.directives.filterMap fun use =>
      (named? use.name).map fun wiring => wiring ⟨c, field, types, some use⟩) ++
      globals.map fun wiring => wiring ⟨c, field, types, none⟩

namespace RuntimeWiring

variable {w : RuntimeWiring} {types : TypeRegistry} {c : Coordinates}

def named? (w : RuntimeWiring) (name : String) : Option DirectiveWiring :=
  Entries.get? name w.directives

theorem mem_wiredFields : c ∈ w.wiredFields types ↔
    types.carriesAt (fun name => (w.named? name).isSome) c = true := by
  rw [wiredFields, List.mem_flatMap, TypeRegistry.carriesAt, List.any_eq_true]
  refine exists_congr fun d => and_congr_right fun _ => ?_
  cases d.body with
  | object fields interfaces =>
    simp only [List.mem_map, List.mem_filter, isWired, Bool.and_eq_true, beq_iff_eq,
      List.any_eq_true (l := fields.values)]
    constructor
    · rintro ⟨field, ⟨hfield, hwired⟩, rfl⟩
      exact ⟨rfl, field, hfield, rfl, hwired⟩
    · rintro ⟨hname, field, hfield, hfieldName, hwired⟩
      exact ⟨field, ⟨hfield, hwired⟩, by rw [hname, hfieldName]⟩
  | _ => simp

theorem wrap_eq_foldl (w : RuntimeWiring) (types : TypeRegistry) (c : Coordinates) (f : Fetcher) :
    w.wrap types c f =
      (fieldLayers w.named? w.globals types c).foldl (fun f layer => layer f) f := by
  unfold wrap fieldLayers named?
  cases types.field? c with
  | none => rfl
  | some field =>
    rw [List.foldl_append, List.foldl_map, List.foldl_filterMap]
    dsimp only
    congr 2
    funext f use
    cases Entries.get? use.name w.directives <;> rfl

end RuntimeWiring

section Dressing

variable {w : RuntimeWiring} {types : TypeRegistry} {r : CodeRegistry} {c : Coordinates}

/-- The last pass over the fetchers: all fields that need one get one, and the wirings are put
around all. -/
def CodeRegistry.dressed (r : CodeRegistry) (w : RuntimeWiring) (types : TypeRegistry) :
    CodeRegistry := (bindWiredFields w types r).mapFetchers (w.wrap types)

theorem bound?_bindWiredFields (w : RuntimeWiring) (types : TypeRegistry) (r : CodeRegistry)
    (c : Coordinates) : (bindWiredFields w types r).bound? c =
      (r.bound? c).or (if types.carriesAt (fun name => (w.named? name).isSome) c then
        some .property else none) := by
  have hfold : ∀ cs : List Coordinates,
      (cs.foldl (fun r c => if r.isBound c then r else r.bind c .property) r).bound? c =
        (r.bound? c).or (if c ∈ cs then some .property else none) := by
    intro cs
    induction cs generalizing r with
    | nil => simp
    | cons d rest ih =>
      rw [List.foldl_cons, ih]
      by_cases hd : d = c
      · subst hd
        cases hbound : r.bound? d <;> simp [CodeRegistry.isBound, hbound]
      · have hkept : (if r.isBound d then r else r.bind d .property).bound? c = r.bound? c := by
          split <;> simp [hd]
        simp [hkept, Ne.symm hd]
  rw [bindWiredFields, hfold]
  simp only [RuntimeWiring.mem_wiredFields]

/-- What is found after the last pass: what was there before it, or else the property fetcher for a
field that carries a wired directive, inside the wirings. -/
theorem CodeRegistry.bound?_dressed (r : CodeRegistry) (w : RuntimeWiring) (types : TypeRegistry)
    (c : Coordinates) : (r.dressed w types).bound? c =
      ((r.bound? c).or (if types.carriesAt (fun name => (w.named? name).isSome) c then
        some .property else none)).map (w.wrap types c) := by
  rw [dressed, bound?_mapFetchers, bound?_bindWiredFields]

theorem CodeRegistry.fallback_dressed : (r.dressed w types).fallback = r.fallback := by
  refine foldl_keeps CodeRegistry.fallback ?_ (w.wiredFields types) r
  intro r c
  split <;> rfl

end Dressing

end SchemaAssembly
