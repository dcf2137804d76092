import Mathlib.Data.List.Nodup
import SchemaAssembly.Assembly.Binding
import SchemaAssembly.Proofs.Coordinates.Ordered
import SchemaAssembly.Proofs.Schema.PossibleTypes

/-!
Which handlers are bound where. Bindings exist exactly if every declared type is there and nothing
is declared twice; each field of an object type has the handler declared on the type itself, or
else the one declared on the first interface or union in order of names.
-/

set_option autoImplicit false

namespace SchemaAssembly

section Declarations

variable {c : Coordinates} {ds defs : List FetcherDefinition}

theorem getD_foldl_declareAt (defs : List FetcherDefinition) (c : Coordinates)
    (m : CoordinateMap (List FetcherDefinition)) :
    (CoordinateMap.get? c (defs.foldl declareAt m)).getD [] =
      (CoordinateMap.get? c m).getD [] ++ defs.filter fun d => d.coordinates = c := by
  induction defs generalizing m with
  | nil => simp
  | cons d rest ih =>
    rw [List.foldl_cons, ih, declareAt, CoordinateMap.get?_insert]
    by_cases hd : d.coordinates = c
    · simp [hd]
    · simp [hd]

theorem nonempty_foldl_declareAt (defs : List FetcherDefinition)
    (m : CoordinateMap (List FetcherDefinition)) (hm : ∀ p ∈ m, p.2 ≠ []) :
    ∀ p ∈ defs.foldl declareAt m, p.2 ≠ [] := by
  induction defs generalizing m with
  | nil => exact hm
  | cons d rest ih =>
    apply ih
    intro p hp
    rcases CoordinateMap.mem_insert hp with rfl | hp
    · simp
    · exact hm p hp

theorem sorted_declarations (defs : List FetcherDefinition) :
    CoordinateMap.Sorted (declarations defs) := by
  have hfold : ∀ m : CoordinateMap (List FetcherDefinition), m.Sorted →
      CoordinateMap.Sorted (defs.foldl declareAt m) := by
    induction defs with
    | nil => exact fun m hm => hm
    | cons d rest ih => exact fun m hm => ih _ (hm.insert _ _)
  exact hfold [] .nil

theorem mem_declarations : (c, ds) ∈ declarations defs ↔
    ds = (defs.filter fun d => d.coordinates = c) ∧ ds ≠ [] := by
  have hgetD := getD_foldl_declareAt defs c []
  simp only [CoordinateMap.get?, Option.getD_none, List.nil_append] at hgetD
  constructor
  · intro h
    have hget := (sorted_declarations defs).mem_iff.mp h
    rw [declarations] at hget
    rw [hget, Option.getD_some] at hgetD
    exact ⟨hgetD, nonempty_foldl_declareAt defs [] (fun _ hp => absurd hp List.not_mem_nil) _ h⟩
  · rintro ⟨rfl, hne⟩
    rw [(sorted_declarations defs).mem_iff, declarations]
    cases hget : CoordinateMap.get? c (defs.foldl declareAt []) with
    | none =>
      rw [hget, Option.getD_none] at hgetD
      exact absurd hgetD.symm hne
    | some ds =>
      rw [hget, Option.getD_some] at hgetD
      rw [hgetD]

def ordered (defs : List FetcherDefinition) : List FetcherDefinition :=
  (declarations defs).flatMap (·.2)

theorem mem_ordered {d : FetcherDefinition} : d ∈ ordered defs ↔ d ∈ defs := by
  rw [ordered, List.mem_flatMap]
  constructor
  · rintro ⟨⟨c, ds⟩, hp, hd⟩
    rw [(mem_declarations.mp hp).1] at hd
    exact (List.mem_filter.mp hd).1
  · intro hd
    have hmem : d ∈ defs.filter fun e => e.coordinates = d.coordinates := by simpa using hd
    exact ⟨(d.coordinates, _), mem_declarations.mpr ⟨rfl, List.ne_nil_of_mem hmem⟩, hmem⟩

theorem count_coordinates (defs : List FetcherDefinition) (c : Coordinates) :
    (defs.map (·.coordinates)).count c = (defs.filter fun d => d.coordinates = c).length := by
  rw [List.count, List.countP_map, List.countP_eq_length_filter]
  rfl

theorem duplicate_none_iff :
    ((declarations defs).find? fun p => decide (1 < p.2.length)) = none ↔
      (defs.map (·.coordinates)).Nodup := by
  rw [List.find?_eq_none, List.nodup_iff_count]
  constructor
  · intro h c
    rw [count_coordinates]
    by_cases hne : (defs.filter fun d => d.coordinates = c) = []
    · simp [hne]
    · simpa using h (c, _) (mem_declarations.mpr ⟨rfl, hne⟩)
  · rintro h ⟨c, ds⟩ hp
    have hle := h c
    rw [count_coordinates, ← (mem_declarations.mp hp).1] at hle
    simpa using hle

theorem coordinates_of_mem {p : Coordinates × List FetcherDefinition} {d : FetcherDefinition}
    (hp : p ∈ declarations defs) (hd : d ∈ p.2) : d.coordinates = p.1 := by
  obtain ⟨c, ds⟩ := p
  rw [(mem_declarations.mp hp).1] at hd
  simpa using (List.mem_filter.mp hd).2

/-- Where nothing is declared twice, the definitions ascend strictly. -/
theorem pairwise_ordered (h : (defs.map (·.coordinates)).Nodup) :
    (ordered defs).Pairwise fun d e => d.coordinates.before e.coordinates = true := by
  rw [ordered, List.pairwise_flatMap]
  constructor
  · intro p hp
    have hone : p.2.length ≤ 1 := by
      simpa using List.find?_eq_none.mp (duplicate_none_iff.mpr h) p hp
    match hp2 : p.2, hone with
    | [], _ => exact .nil
    | [d], _ => exact List.pairwise_singleton _ _
  · refine (sorted_declarations defs).imp_of_mem ?_
    intro p q hp hq hpq d hd e he
    rw [coordinates_of_mem hp hd, coordinates_of_mem hq he]
    exact hpq

end Declarations

section Bindings

variable {types : TypeRegistry} {defs ds : List FetcherDefinition} {c : Coordinates}
  {o f : String} {d : FetcherDefinition}

def DirectAt (types : TypeRegistry) (defs : List FetcherDefinition) (o f : String)
    (d : FetcherDefinition) : Prop :=
  d ∈ defs ∧ d.parentType = o ∧ d.fieldName = f ∧ types.isAbstract o = false

/-- A definition on an interface or union of which the type is a possible type. -/
def FannedAt (types : TypeRegistry) (defs : List FetcherDefinition) (o f : String)
    (d : FetcherDefinition) : Prop :=
  d ∈ defs ∧ types.isAbstract d.parentType = true ∧ o ∈ types.possibleTypes d.parentType ∧
    d.fieldName = f

/-- The definition that counts for a field of a type. -/
inductive Selected (types : TypeRegistry) (defs : List FetcherDefinition) (o f : String) :
    FetcherDefinition → Prop where
  | direct {d : FetcherDefinition} (h : DirectAt types defs o f d) : Selected types defs o f d
  | fanned {d : FetcherDefinition} (hnone : ∀ e, ¬ DirectAt types defs o f e)
      (h : FannedAt types defs o f d)
      (hleast : ∀ e, FannedAt types defs o f e →
        e.parentType = d.parentType ∨ nameBefore d.parentType e.parentType = true) :
      Selected types defs o f d

theorem get?_foldl_insert (hd : (ds.map (·.coordinates)).Nodup) (m : CoordinateMap Binding) :
    CoordinateMap.get? c
        (ds.foldl (fun m d => CoordinateMap.insert d.coordinates (.of d d.parentType) m) m) =
      ((ds.find? fun d => d.coordinates = c).map fun d => Binding.of d d.parentType).or
        (CoordinateMap.get? c m) := by
  induction ds generalizing m with
  | nil => simp
  | cons d rest ih =>
    obtain ⟨hnot, hrest⟩ := List.nodup_cons.mp hd
    rw [List.foldl_cons, ih hrest, CoordinateMap.get?_insert]
    by_cases hc : d.coordinates = c
    · have hnone : (rest.find? fun d => d.coordinates = c) = none := by
        rw [List.find?_eq_none]
        intro e he
        have hne : e.coordinates ≠ c := by
          intro h
          exact hnot (List.mem_map.mpr ⟨e, he, h.trans hc.symm⟩)
        simpa using hne
      simp [hc, hnone]
    · simp [hc]

theorem get?_foldl_insertIfAbsent (bs : List Binding) (m : CoordinateMap Binding) :
    CoordinateMap.get? c
        (bs.foldl (fun m b => CoordinateMap.insertIfAbsent b.coordinates b m) m) =
      (CoordinateMap.get? c m).or (bs.find? fun b => b.coordinates = c) := by
  induction bs generalizing m with
  | nil => simp
  | cons b rest ih =>
    rw [List.foldl_cons, ih, CoordinateMap.get?_insertIfAbsent]
    by_cases hc : b.coordinates = c
    · cases CoordinateMap.get? c m <;> simp [hc]
    · simp [hc]

theorem sorted_foldl {β : Type} {step : CoordinateMap Binding → β → CoordinateMap Binding}
    (hstep : ∀ m b, CoordinateMap.Sorted m → CoordinateMap.Sorted (step m b)) (bs : List β)
    {m : CoordinateMap Binding} (hm : m.Sorted) : CoordinateMap.Sorted (bs.foldl step m) := by
  induction bs generalizing m with
  | nil => exact hm
  | cons b rest ih => exact ih (hstep m b hm)

theorem sorted_spread (types : TypeRegistry) (ds : List FetcherDefinition) :
    CoordinateMap.Sorted (spread types ds) := by
  unfold spread
  apply sorted_foldl fun m b hm => hm.insertIfAbsent _ _
  exact sorted_foldl (fun m d hm => hm.insert _ _) _ .nil

/-- The bindings that definitions on interfaces and unions ask for, in order. -/
def fanOut (types : TypeRegistry) (ds : List FetcherDefinition) : List Binding :=
  (ds.filter fun d => types.isAbstract d.parentType).flatMap fun d =>
    (types.possibleTypes d.parentType).map (Binding.of d)

theorem get?_spread (hd : (ds.map (·.coordinates)).Nodup) :
    CoordinateMap.get? c (spread types ds) =
      (((ds.filter fun d => !types.isAbstract d.parentType).find? fun d =>
        d.coordinates = c).map fun d => Binding.of d d.parentType).or
        ((fanOut types ds).find? fun b => b.coordinates = c) := by
  have hdirect : ((ds.filter fun d => !types.isAbstract d.parentType).map
      (·.coordinates)).Nodup := hd.sublist (List.filter_sublist.map _)
  rw [spread, get?_foldl_insertIfAbsent, get?_foldl_insert hdirect, fanOut]
  simp [CoordinateMap.get?]

theorem coordinates_iff : d.coordinates = ⟨o, f⟩ ↔ d.parentType = o ∧ d.fieldName = f := by
  simp [FetcherDefinition.coordinates]

theorem directAt_iff : DirectAt types defs o f d ↔
    d ∈ (ordered defs).filter (fun d => !types.isAbstract d.parentType) ∧
      d.coordinates = ⟨o, f⟩ := by
  rw [List.mem_filter, mem_ordered, coordinates_iff]
  constructor
  · rintro ⟨hmem, rfl, rfl, habs⟩
    exact ⟨⟨hmem, by simp [habs]⟩, rfl, rfl⟩
  · rintro ⟨⟨hmem, habs⟩, rfl, rfl⟩
    exact ⟨hmem, rfl, rfl, by simpa using habs⟩

theorem coordinates_of (d : FetcherDefinition) (o : String) :
    (Binding.of d o).coordinates = ⟨o, d.fieldName⟩ := rfl

theorem find?_fanOut_some {b : Binding} (hd : (defs.map (·.coordinates)).Nodup)
    (h : ((fanOut types (ordered defs)).find? fun b => b.coordinates = ⟨o, f⟩) = some b) :
    ∃ d, b = Binding.of d o ∧ FannedAt types defs o f d ∧
      ∀ e, FannedAt types defs o f e →
        e.parentType = d.parentType ∨ nameBefore d.parentType e.parentType = true := by
  rw [fanOut, List.find?_flatMap, List.findSome?_eq_some_iff] at h
  obtain ⟨earlier, d, later, hsplit, hfind, hnone⟩ := h
  have hb : b.coordinates = ⟨o, f⟩ := by simpa using List.find?_some hfind
  obtain ⟨o', ho', rfl⟩ := List.mem_map.mp (List.mem_of_find?_eq_some hfind)
  rw [coordinates_of, Coordinates.mk.injEq] at hb
  obtain ⟨rfl, hf⟩ := hb
  have hmem : d ∈ (ordered defs).filter fun d => types.isAbstract d.parentType := by
    rw [hsplit]
    exact List.mem_append_right _ List.mem_cons_self
  have hmem' := List.mem_filter.mp hmem
  refine ⟨d, rfl, ⟨mem_ordered.mp hmem'.1, hmem'.2, ho', hf⟩, ?_⟩
  rintro e ⟨hein, heabs, heo, hef⟩
  have he : e ∈ earlier ++ d :: later := by
    rw [← hsplit]
    exact List.mem_filter.mpr ⟨mem_ordered.mpr hein, heabs⟩
  -- A definition before the first hit does not reach the type; one after it has a later parent.
  rcases List.mem_append.mp he with he | he
  · have hno := List.find?_eq_none.mp (hnone e he) (Binding.of e o') (List.mem_map_of_mem heo)
    simp [coordinates_of, hef] at hno
  · rcases List.mem_cons.mp he with rfl | he
    · exact .inl rfl
    · have hpair := (pairwise_ordered hd).sublist
        (List.filter_sublist (p := fun d => types.isAbstract d.parentType))
      rw [hsplit] at hpair
      have hbefore := (List.pairwise_cons.mp (List.pairwise_append.mp hpair).2.1).1 e he
      rw [Coordinates.before_iff] at hbefore
      rcases hbefore with hlt | ⟨heq, -⟩
      · exact .inr (nameBefore_iff.mpr hlt)
      · exact .inl heq.symm

theorem find?_fanOut_none
    (h : ((fanOut types (ordered defs)).find? fun b => b.coordinates = ⟨o, f⟩) = none)
    (d : FetcherDefinition) : ¬ FannedAt types defs o f d := by
  rintro ⟨hmem, habs, ho, hf⟩
  have hin : Binding.of d o ∈ fanOut types (ordered defs) :=
    List.mem_flatMap.mpr ⟨d, List.mem_filter.mpr ⟨mem_ordered.mpr hmem, habs⟩,
      List.mem_map_of_mem ho⟩
  have hno := List.find?_eq_none.mp h _ hin
  simp [coordinates_of, hf] at hno

theorem nodup_ordered (hd : (defs.map (·.coordinates)).Nodup) :
    ((ordered defs).map (·.coordinates)).Nodup := by
  rw [List.nodup_iff_pairwise_ne, List.pairwise_map]
  exact (pairwise_ordered hd).imp fun h => Coordinates.ne_of_before h

theorem spread_some {b : Binding} (hd : (defs.map (·.coordinates)).Nodup)
    (h : CoordinateMap.get? ⟨o, f⟩ (spread types (ordered defs)) = some b) :
    ∃ d, Selected types defs o f d ∧ b = Binding.of d o := by
  rw [get?_spread (nodup_ordered hd)] at h
  cases hfind : ((ordered defs).filter fun d => !types.isAbstract d.parentType).find? fun d =>
    d.coordinates = ⟨o, f⟩ with
  | some d =>
    have hc : d.coordinates = ⟨o, f⟩ := by simpa using List.find?_some hfind
    have hdirect := directAt_iff.mpr ⟨List.mem_of_find?_eq_some hfind, hc⟩
    rw [hfind] at h
    refine ⟨d, .direct hdirect, ?_⟩
    rw [← hdirect.2.1]
    exact (Option.some.inj h).symm
  | none =>
    have hnone : ∀ e, ¬ DirectAt types defs o f e := by
      intro e he
      obtain ⟨hmem, hc⟩ := directAt_iff.mp he
      simpa [hc] using List.find?_eq_none.mp hfind e hmem
    rw [hfind] at h
    obtain ⟨d, hb, hfanned, hleast⟩ := find?_fanOut_some hd h
    exact ⟨d, .fanned hnone hfanned hleast, hb⟩

theorem spread_none (hd : (defs.map (·.coordinates)).Nodup)
    (h : CoordinateMap.get? ⟨o, f⟩ (spread types (ordered defs)) = none) :
    (∀ d, ¬ DirectAt types defs o f d) ∧ ∀ d, ¬ FannedAt types defs o f d := by
  rw [get?_spread (nodup_ordered hd), Option.or_eq_none_iff, Option.map_eq_none_iff] at h
  refine ⟨?_, find?_fanOut_none h.2⟩
  intro d hdirect
  obtain ⟨hmem, hc⟩ := directAt_iff.mp hdirect
  simpa [hc] using List.find?_eq_none.mp h.1 d hmem

def definitionsOf (components : List Component) : List FetcherDefinition :=
  (declaredFetchers components).map (·.2)

theorem bindFetchers_eq (types : TypeRegistry) (components : List Component) :
    bindFetchers types components =
      match (declaredFetchers components).find? fun d => !types.contains d.2.parentType with
      | some (owner, d) => .error (.missingParentType d.parentType owner d.handler.name)
      | none =>
        match (declarations (definitionsOf components)).find? fun p =>
          decide (1 < p.2.length) with
        | some (c, _) => .error (.duplicateDataFetcher c)
        | none =>
          .ok ((spread types (ordered (definitionsOf components))).map (·.2)) := rfl

/-- Whether the definitions of components can be bound. -/
def Bindable (types : TypeRegistry) (components : List Component) : Prop :=
  (∀ d ∈ definitionsOf components, types.contains d.parentType = true) ∧
    ((definitionsOf components).map (·.coordinates)).Nodup

theorem missing_none_iff {components : List Component} :
    ((declaredFetchers components).find? fun d => !types.contains d.2.parentType) = none ↔
      ∀ d ∈ definitionsOf components, types.contains d.parentType = true := by
  simp only [List.find?_eq_none, definitionsOf, List.mem_map]
  constructor
  · rintro h d ⟨p, hp, rfl⟩
    simpa using h p hp
  · intro h p hp
    simpa using h p.2 ⟨p, hp, rfl⟩

theorem bindFetchers_of_bindable {components : List Component} (h : Bindable types components) :
    bindFetchers types components =
      .ok ((spread types (ordered (definitionsOf components))).map (·.2)) := by
  rw [bindFetchers_eq, missing_none_iff.mpr h.1]
  simp only [duplicate_none_iff.mpr h.2]

theorem bindable_of_ok {components : List Component} {bs : List Binding}
    (h : bindFetchers types components = .ok bs) : Bindable types components := by
  rw [bindFetchers_eq] at h
  cases hmissing : (declaredFetchers components).find? fun d => !types.contains d.2.parentType with
  | some p =>
    rw [hmissing] at h
    cases h
  | none =>
    rw [hmissing] at h
    cases hdup : (declarations (definitionsOf components)).find? fun p =>
      decide (1 < p.2.length) with
    | some p =>
      simp only [hdup] at h
      cases h
    | none => exact ⟨missing_none_iff.mp hmissing, duplicate_none_iff.mp hdup⟩

theorem mem_spread {p : Coordinates × Binding} (hd : (defs.map (·.coordinates)).Nodup)
    (h : p ∈ spread types (ordered defs)) :
    p.2.coordinates = p.1 ∧ ∃ d, Selected types defs p.1.parentType p.1.field d ∧
      p.2 = Binding.of d p.1.parentType := by
  obtain ⟨⟨o, f⟩, b⟩ := p
  have hget := (sorted_spread types (ordered defs)).mem_iff.mp h
  obtain ⟨d, hsel, rfl⟩ := spread_some hd hget
  have hf : d.fieldName = f := by
    cases hsel with
    | direct hdirect => exact hdirect.2.2.1
    | fanned _ hfanned _ => exact hfanned.2.2.2
  exact ⟨by rw [coordinates_of, hf], d, hsel, rfl⟩

theorem exists_binding_iff (hd : (defs.map (·.coordinates)).Nodup) :
    (∃ b ∈ (spread types (ordered defs)).map (·.2), b.coordinates = ⟨o, f⟩) ↔
      (∃ d, DirectAt types defs o f d) ∨ ∃ d, FannedAt types defs o f d := by
  constructor
  · rintro ⟨b, hb, hc⟩
    obtain ⟨p, hp, rfl⟩ := List.mem_map.mp hb
    obtain ⟨hcp, d, hsel, -⟩ := mem_spread hd hp
    rw [← hcp, hc] at hsel
    cases hsel with
    | direct hdirect => exact .inl ⟨d, hdirect⟩
    | fanned _ hfanned _ => exact .inr ⟨d, hfanned⟩
  · intro h
    cases hget : CoordinateMap.get? ⟨o, f⟩ (spread types (ordered defs)) with
    | none =>
      obtain ⟨hdirect, hfanned⟩ := spread_none hd hget
      rcases h with ⟨d, hd⟩ | ⟨d, hd⟩
      · exact absurd hd (hdirect d)
      · exact absurd hd (hfanned d)
    | some b =>
      have hmem := CoordinateMap.mem_of_get? hget
      exact ⟨b, List.mem_map.mpr ⟨_, hmem, rfl⟩, (mem_spread hd hmem).1⟩

theorem eq_of_coordinates {d e : FetcherDefinition} (hd : (defs.map (·.coordinates)).Nodup)
    (hdm : d ∈ defs) (hem : e ∈ defs) (h : d.coordinates = e.coordinates) : d = e :=
  List.inj_on_of_nodup_map hd hdm hem h

theorem Selected.unique {e : FetcherDefinition} (hd : (defs.map (·.coordinates)).Nodup)
    (h : Selected types defs o f d) (h' : Selected types defs o f e) : d = e := by
  cases h with
  | direct hdir =>
    cases h' with
    | direct hdir' =>
      apply eq_of_coordinates hd hdir.1 hdir'.1
      rw [coordinates_iff.mpr ⟨hdir.2.1, hdir.2.2.1⟩, coordinates_iff.mpr ⟨hdir'.2.1, hdir'.2.2.1⟩]
    | fanned hnone _ _ => exact absurd hdir (hnone d)
  | fanned hnone hfan hleast =>
    cases h' with
    | direct hdir' => exact absurd hdir' (hnone e)
    | fanned _ hfan' hleast' =>
      have hparent : d.parentType = e.parentType := by
        rcases hleast e hfan' with heq | hlt
        · exact heq.symm
        · rcases hleast' d hfan with heq | hgt
          · exact heq
          · have hself := String.lt_trans (nameBefore_iff.mp hlt) (nameBefore_iff.mp hgt)
            exact absurd hself (String.lt_irrefl _)
      apply eq_of_coordinates hd hfan.1 hfan'.1
      rw [coordinates_iff.mpr ⟨hparent, hfan.2.2.2⟩, coordinates_iff.mpr ⟨rfl, hfan'.2.2.2⟩]

theorem selected_of_direct (hn : types.names.Nodup) (hmem : d ∈ defs)
    (hc : d.coordinates = ⟨o, f⟩)
    (hbound : (∃ e, DirectAt types defs o f e) ∨ ∃ e, FannedAt types defs o f e) :
    Selected types defs o f d := by
  obtain ⟨hparent, hfield⟩ := coordinates_iff.mp hc
  have habs : types.isAbstract o = false := by
    rcases hbound with ⟨e, he⟩ | ⟨e, he⟩
    · exact he.2.2.2
    · exact TypeRegistry.isAbstract_of_mem_possibleTypes hn he.2.2.1
  exact .direct ⟨hmem, hparent, hfield, habs⟩

/-- Binding is exact. It succeeds just for components whose declared types are all there and that
declare nothing twice. Each field of an object type that is declared on the type, or on an interface
or union that has it as a possible type, is then bound once, in the order of coordinates, with the
definition that counts for it. -/
theorem bindFetchers_exact (types : TypeRegistry) (components : List Component) :
    ((∃ bs, bindFetchers types components = .ok bs) ↔ Bindable types components) ∧
      ∀ bs, bindFetchers types components = .ok bs →
        (bs.Pairwise fun a b => a.coordinates.before b.coordinates = true) ∧
        (∀ o f, (∃ b ∈ bs, b.coordinates = ⟨o, f⟩) ↔
          (∃ d, DirectAt types (definitionsOf components) o f d) ∨
            ∃ d, FannedAt types (definitionsOf components) o f d) ∧
        (∀ b ∈ bs,
          (∃ d, Selected types (definitionsOf components) b.parentType b.field d) ∧
          ∀ d, Selected types (definitionsOf components) b.parentType b.field d →
            b.owner = d.handler.owner ∧ b.handler = d.handler ∧
              b.declaredParent = d.parentType ∧ b.instrumented = d.isInstrumented) ∧
        (types.names.Nodup → ∀ b ∈ bs, ∀ d ∈ definitionsOf components,
          d.coordinates = b.coordinates →
            Selected types (definitionsOf components) b.parentType b.field d) := by
  refine ⟨⟨fun ⟨bs, h⟩ => bindable_of_ok h, fun h => ⟨_, bindFetchers_of_bindable h⟩⟩, ?_⟩
  intro bs h
  have hbindable := bindable_of_ok h
  have hd := hbindable.2
  rw [bindFetchers_of_bindable hbindable] at h
  cases h
  refine ⟨?_, fun o f => exists_binding_iff hd, ?_, ?_⟩
  · rw [List.pairwise_map]
    refine (sorted_spread types _).imp_of_mem ?_
    intro p q hp hq hpq
    rw [(mem_spread hd hp).1, (mem_spread hd hq).1]
    exact hpq
  · intro b hb
    obtain ⟨p, hp, rfl⟩ := List.mem_map.mp hb
    obtain ⟨hc, d, hsel, hof⟩ := mem_spread hd hp
    rw [← hc] at hsel
    refine ⟨⟨d, hsel⟩, ?_⟩
    intro e he
    rw [← hsel.unique hd he, hof]
    exact ⟨rfl, rfl, rfl, rfl⟩
  · intro hn b hb d hmem hc
    exact selected_of_direct hn hmem hc ((exists_binding_iff hd).mp ⟨b, hb, rfl⟩)

theorem bindFetchers_exact_overlap :
    let types : TypeRegistry := ⟨[⟨⟨"Item", none, [], .interface [] []⟩, "a"⟩,
      ⟨⟨"Any", none, [], .union ["Book", "Gone"]⟩, "a"⟩,
      ⟨⟨"Book", none, [], .object [] ["Item"]⟩, "a"⟩], [], .standard, []⟩
    let handler : Handler := ⟨0, "shop", "title", [], .sync, fun _ => .error (.ofMessage "none")⟩
    let components : List Component :=
      [{ name := "shop", fetchers := [{ parentType := "Item", handler := handler },
        { parentType := "Any", handler := handler }] }]
    ∃ bs, bindFetchers types components = .ok bs ∧
      ∃ b ∈ bs, b.coordinates = ⟨"Book", "title"⟩ := by
  intro types handler components
  have h := bindFetchers_exact types components
  have hbindable : Bindable types components := by
    constructor <;> decide
  obtain ⟨bs, hbs⟩ := h.1.mpr hbindable
  have hfanned : FannedAt types (definitionsOf components) "Book" "title"
      { parentType := "Item", handler := handler } := by
    refine ⟨?_, by decide, by decide, rfl⟩
    simp [definitionsOf, declaredFetchers, components]
  exact ⟨bs, hbs, ((h.2 bs hbs).2.1 "Book" "title").mpr (.inr ⟨_, hfanned⟩)⟩

end Bindings

end SchemaAssembly
