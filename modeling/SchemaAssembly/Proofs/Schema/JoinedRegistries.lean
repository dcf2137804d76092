import SchemaAssembly.Proofs.Schema.StagedMerge

/-!
Joining the registries of two lists of fragments, against merging all fragments into one registry.
Every type comes with the extensions that its own fragments have for it, and no fragment can extend
a type of the other list, so both ways give the same types in the same order. Only the built-in
scalars are in both registries: the joined one has those of the first, without the directives that
extensions of the second list add.
-/

set_option autoImplicit false

namespace SchemaAssembly

def Declared.extendedBy (es : List TypeDef) (x : Declared) : Declared :=
  { x with definition := (es.filter fun e => e.name = x.name).foldl TypeDef.extended x.definition }

section ExtendedBy

variable {es fs : List TypeDef} {x : Declared}

theorem name_foldl_extended (es : List TypeDef) (d : TypeDef) :
    (es.foldl TypeDef.extended d).name = d.name := by
  induction es generalizing d with
  | nil => rfl
  | cons e rest ih => rw [List.foldl_cons, ih, TypeDef.name_extended]

@[simp] theorem name_extendedBy (es : List TypeDef) (x : Declared) :
    (x.extendedBy es).name = x.name := name_foldl_extended _ _

@[simp] theorem origin_extendedBy (es : List TypeDef) (x : Declared) :
    (x.extendedBy es).origin = x.origin := rfl

theorem map_name_extendedBy (es : List TypeDef) (xs : List Declared) :
    (xs.map (Declared.extendedBy es)).map Declared.name = xs.map Declared.name := by
  rw [List.map_map]
  exact List.map_congr_left fun x _ => name_extendedBy es x

theorem extendedBy_append (es fs : List TypeDef) (x : Declared) :
    x.extendedBy (es ++ fs) = (x.extendedBy es).extendedBy fs := by
  rw [Declared.extendedBy, Declared.extendedBy, name_extendedBy, Declared.extendedBy,
    List.filter_append, List.foldl_append]

theorem extendedBy_of_notMem (h : ∀ e ∈ es, e.name ≠ x.name) : x.extendedBy es = x := by
  have hnone : (es.filter fun e => e.name = x.name) = [] := by
    simpa [List.filter_eq_nil_iff] using h
  rw [Declared.extendedBy, hnone, List.foldl_nil]

end ExtendedBy

namespace TypeRegistry

variable {r s a b c m : TypeRegistry} {e : TypeDef} {es : List TypeDef} {fs gs : List Fragment}
  {ds : List Declared} {us : List DirectiveDef} {n : String}

theorem entry?_of_mem (h : r.names.Nodup) {x : Declared} (hx : x ∈ r.declared) :
    r.entry? x.name = some x := by
  rw [names_eq] at h
  exact find?_key Declared.name h hx

theorem declared_extended (h : r.names.Nodup) (e : TypeDef) :
    (r.extended e).declared = r.declared.map (Declared.extendedBy [e]) := by
  have hone : ∀ x : Declared, x.extendedBy [e] =
      if x.definition.name = e.name then { x with definition := x.definition.extended e } else x := by
    intro x
    by_cases hx : e.name = x.definition.name
    · simp [Declared.extendedBy, Declared.name, hx]
    · simp [Declared.extendedBy, Declared.name, hx, Ne.symm hx]
  unfold extended
  cases hget : r.get? e.name with
  | none =>
    rw [List.map_congr_left (g := id), List.map_id]
    intro x hx
    refine extendedBy_of_notMem (List.forall_mem_singleton.mpr fun hname => ?_)
    rw [hname, get?, entry?_of_mem h hx] at hget
    cases hget
  | some d =>
    refine List.map_congr_left fun x hx => ?_
    rw [hone, TypeDef.name_extended, name_of_get? hget]
    by_cases hname : x.definition.name = e.name
    · have hentry := entry?_of_mem h hx
      rw [Declared.name, hname] at hentry
      rw [get?, hentry, Option.map_some, Option.some.injEq] at hget
      rw [if_pos hname, if_pos hname, hget]
    · rw [if_neg hname, if_neg hname]

theorem declared_foldl_extended (h : r.names.Nodup) (es : List TypeDef) :
    (es.foldl extended r).declared = r.declared.map (Declared.extendedBy es) := by
  induction es generalizing r with
  | nil =>
    rw [List.foldl_nil, List.map_congr_left (g := id), List.map_id]
    exact fun x _ => extendedBy_of_notMem (by simp)
  | cons e rest ih =>
    rw [List.foldl_cons, ih (by rwa [names_extended]), declared_extended h, List.map_map]
    refine List.map_congr_left fun x _ => ?_
    rw [Function.comp_apply, ← extendedBy_append, List.singleton_append]

theorem nodup_withBases (h : r.names.Nodup) (hfs : r.Accepts (baseTypes fs) (directiveDefs fs)) :
    (r.withBases fs).names.Nodup := by
  rw [names_withBases, List.nodup_append]
  exact ⟨h, hfs.1.1, fun n hn k hk heq => hfs.1.2 k hk (heq ▸ hn)⟩

/-- After a merge every definition has the extensions of its name. -/
theorem declared_mergedTypes (h : r.names.Nodup) (hfs : r.Mergeable fs) :
    (r.mergedTypes fs).declared =
      (r.declared ++ baseTypes fs).map (Declared.extendedBy (extensions fs)) :=
  declared_foldl_extended (nodup_withBases h hfs.bases) _

/-- A definition is entered, unless it is a built-in one that is there. -/
def addShared (r : TypeRegistry) (d : Declared) : Registration :=
  if d.origin = builtinOrigin ∧ r.contains d.definition.name then .done r
  else r.addType d.origin d.definition

theorem registerAll_append {α : Type} {step : TypeRegistry → α → Registration} {xs ys : List α}
    (hxs : registerAll step r xs = .done m) (hys : registerAll step m ys = .done s) :
    registerAll step r (xs ++ ys) = .done s := by
  induction xs generalizing r with
  | nil => rwa [registerAll_nil.mp hxs] at hys
  | cons x rest ih =>
    obtain ⟨k, hk, hrest⟩ := registerAll_cons.mp hxs
    exact registerAll_cons.mpr ⟨k, hk, ih hrest⟩

theorem registerAll_addShared_builtin
    (h : ∀ d ∈ ds, d.origin = builtinOrigin ∧ d.name ∈ r.names) :
    registerAll addShared r ds = .done r := by
  induction ds with
  | nil => rfl
  | cons d rest ih =>
    obtain ⟨⟨horigin, hname⟩, hrest⟩ := List.forall_mem_cons.mp h
    have hstep : addShared r d = .done r := if_pos ⟨horigin, isSome_entry?_iff.mpr hname⟩
    exact registerAll_cons.mpr ⟨r, hstep, ih hrest⟩

theorem registerAll_addShared_fresh (h : Fresh r.names (ds.map Declared.name)) :
    registerAll addShared r ds = .done (r.declare ds []) := by
  induction ds generalizing r with
  | nil => rw [declare_nil, registerAll_nil]
  | cons d rest ih =>
    obtain ⟨hd, hrest⟩ := fresh_cons.mp h
    have hstep : addShared r d = .done (r.declare [d] []) := by
      have hnew : ¬ (d.origin = builtinOrigin ∧ r.contains d.definition.name = true) :=
        fun hthere => hd (isSome_entry?_iff.mp hthere.2)
      rw [addShared, if_neg hnew, addType_eq_done_iff]
      exact ⟨hd, rfl⟩
    refine registerAll_cons.mpr ⟨_, hstep, ?_⟩
    have hnext := ih (r := r.declare [d] []) (by rwa [names_declare])
    rwa [declare_declare] at hnext

theorem registerAll_addDirective_fresh (h : Fresh r.directiveNames (us.map (·.name))) :
    registerAll addDirective r us = .done (r.declare [] us) := by
  induction us generalizing r with
  | nil => rw [declare_nil, registerAll_nil]
  | cons u rest ih =>
    obtain ⟨hu, hrest⟩ := fresh_cons.mp h
    refine registerAll_cons.mpr ⟨_, addDirective_eq_done_iff.mpr ⟨hu, rfl⟩, ?_⟩
    have hnext := ih (r := r.declare [] [u]) (by rwa [directiveNames_declare])
    rwa [declare_declare] at hnext

/-- A registry whose definitions are built-in ones and new ones can be joined; the new ones come to
the end. -/
theorem merge_eq_done {shared new : List Declared} {other : TypeRegistry}
    (hother : other.declared = shared ++ new)
    (hshared : ∀ d ∈ shared, d.origin = builtinOrigin ∧ d.name ∈ r.names)
    (hnew : r.Accepts new other.directives) :
    ∃ s, r.merge other = .done s ∧ s.declared = r.declared ++ new ∧
      s.directives = r.directives ++ other.directives ∧ s.sources = r.sources ++ other.sources := by
  have htypes : registerAll addShared r other.declared = .done (r.declare new []) := by
    rw [hother]
    exact registerAll_append (registerAll_addShared_builtin hshared)
      (registerAll_addShared_fresh hnew.1)
  have hdirectives : registerAll addDirective (r.declare new []) other.directives =
      .done (r.declare new other.directives) := by
    have hfresh : Fresh (r.declare new []).directiveNames (other.directives.map (·.name)) := by
      rw [directiveNames_declare, List.map_nil, List.append_nil]
      exact hnew.2
    have h := registerAll_addDirective_fresh hfresh
    rwa [declare_declare, List.append_nil, List.nil_append] at h
  have hjoined : r.merge other = .done { r.declare new other.directives with
      roots := if other.roots = .standard then r.roots else other.roots
      sources := r.sources ++ other.sources } := by
    rw [merge, Registration.andThen_eq_done]
    exact ⟨_, Registration.andThen_eq_done.mpr ⟨_, htypes, hdirectives⟩, rfl⟩
  exact ⟨_, hjoined, rfl, rfl, rfl⟩

theorem nodup_names_initial : initial.names.Nodup := by decide

theorem names_initial : initial.names = builtinScalars := rfl

theorem origin_of_mem_initial {x : Declared} (h : x ∈ initial.declared) :
    x.origin = builtinOrigin := by
  obtain ⟨n, -, rfl⟩ := List.mem_map.mp h
  rfl

/-- Fragments extend types of the registry and their own types. -/
theorem Mergeable.name_mem (h : r.Mergeable fs) (he : e ∈ extensions fs) :
    e.name ∈ r.names ∨ e.name ∈ (baseTypes fs).map Declared.name := by
  have hmem := (h.extendable e he).mem_names
  rwa [names_withBases, List.mem_append] at hmem

/-- Extensions of one list leave the base definitions of the other as they are. -/
theorem Mergeable.map_extendedBy (hgs : r.Mergeable gs) {xs : List Declared}
    (h : ∀ x ∈ xs, x.name ∉ r.names ∧ x.name ∉ (baseTypes gs).map Declared.name) :
    xs.map (Declared.extendedBy (extensions gs)) = xs := by
  rw [List.map_congr_left (g := id), List.map_id]
  intro x hx
  refine extendedBy_of_notMem fun e he hname => ?_
  rcases hgs.name_mem he with hmem | hmem
  · exact (h x hx).1 (hname ▸ hmem)
  · exact (h x hx).2 (hname ▸ hmem)

/-- What all fragments give is what the lists give on their own, but for the types that were there
before. -/
theorem declared_mergedTypes_append (h : r.names.Nodup) (hfs : r.Mergeable fs)
    (hgs : r.Mergeable gs) (hall : r.Mergeable (fs ++ gs)) :
    (r.mergedTypes (fs ++ gs)).declared =
      r.declared.map (Declared.extendedBy (extensions fs ++ extensions gs)) ++
        (baseTypes fs).map (Declared.extendedBy (extensions fs)) ++
        (baseTypes gs).map (Declared.extendedBy (extensions gs)) := by
  obtain ⟨hfirst, hsecond⟩ := accepts_bases_append.mp hall.bases
  have hbases : baseTypes (fs ++ gs) = baseTypes fs ++ baseTypes gs := List.flatMap_append
  have happend : Declared.extendedBy (extensions fs ++ extensions gs) =
      Declared.extendedBy (extensions gs) ∘ Declared.extendedBy (extensions fs) := by
    funext x
    exact extendedBy_append _ _ _
  rw [declared_mergedTypes h hall, hbases, extensions_append, List.map_append, List.map_append,
    ← List.append_assoc, List.append_assoc, List.append_assoc]
  congr 2
  · rw [happend, ← List.map_map]
    refine hgs.map_extendedBy fun x hx => ?_
    obtain ⟨y, hy, rfl⟩ := List.mem_map.mp hx
    have hname : y.name ∈ (baseTypes fs).map Declared.name := List.mem_map_of_mem hy
    rw [name_extendedBy]
    refine ⟨fun hold => hfirst.1.2 _ hname hold, fun hnew => ?_⟩
    refine hsecond.1.2 _ hnew ?_
    rw [names_withBases]
    exact List.mem_append_right _ hname
  · rw [happend, ← List.map_map]
    congr 1
    refine hfs.map_extendedBy fun x hx => ?_
    have hname : x.name ∈ (baseTypes gs).map Declared.name := List.mem_map_of_mem hx
    have hnew := hsecond.1.2 _ hname
    rw [names_withBases, List.mem_append, not_or] at hnew
    exact hnew

theorem body_of_mem_initial {x : Declared} (h : x ∈ initial.declared) :
    x.definition.body = .scalar := by
  obtain ⟨n, -, rfl⟩ := List.mem_map.mp h
  rfl

theorem body_eq_scalar_of_keyword {d : TypeDef} (h : d.keyword = "scalar") : d.body = .scalar := by
  cases hbody : d.body <;> simp [TypeDef.keyword, TypeBody.keyword, hbody] at h ⊢

theorem foldl_extended_scalar {d : TypeDef} (hd : d.body = .scalar)
    (hes : ∀ e ∈ es, e.body = .scalar) :
    es.foldl TypeDef.extended d =
      { d with directives := d.directives ++ es.flatMap (·.directives) } := by
  induction es generalizing d with
  | nil => simp
  | cons e rest ih =>
    obtain ⟨he, hrest⟩ := List.forall_mem_cons.mp hes
    have hstep : d.extended e = { d with directives := d.directives ++ e.directives } := by
      simp [TypeDef.extended, hd, he, TypeBody.extend?]
    rw [List.foldl_cons, hstep, ih (d := { d with directives := d.directives ++ e.directives }) hd
      hrest, List.flatMap_cons, List.append_assoc]

theorem Mergeable.body_eq_scalar (h : initial.Mergeable fs) (he : e ∈ extensions fs)
    {x : Declared} (hx : x ∈ initial.declared) (hname : e.name = x.name) : e.body = .scalar := by
  obtain ⟨d, hd, hkind⟩ := h.extendable e he
  have hthere : e.name ∈ initial.names := by
    rw [hname, names_eq]
    exact List.mem_map_of_mem hx
  rw [get?_withBases_of_mem hthere, hname, get?, entry?_of_mem nodup_names_initial hx,
    Option.map_some, Option.some.injEq] at hd
  refine body_eq_scalar_of_keyword ?_
  rw [← hkind, ← hd, TypeDef.keyword, body_of_mem_initial hx]
  rfl

/-- A built-in scalar looks the same without the extensions of the second list just if these add no
directive to it. -/
theorem extendedBy_builtin_iff (hfs : initial.Mergeable fs) (hgs : initial.Mergeable gs)
    {x : Declared} (hx : x ∈ initial.declared) :
    x.extendedBy (extensions fs) = x.extendedBy (extensions fs ++ extensions gs) ↔
      ∀ e ∈ extensions gs, e.name = x.name → e.directives = [] := by
  have hscalars : ∀ {hs : List Fragment}, initial.Mergeable hs →
      ∀ e ∈ (extensions hs).filter fun e => e.name = x.name, e.body = .scalar := by
    intro hs hm e he
    obtain ⟨he, hname⟩ := List.mem_filter.mp he
    exact hm.body_eq_scalar he hx (of_decide_eq_true hname)
  have hbody := body_of_mem_initial hx
  simp only [Declared.extendedBy, List.filter_append]
  rw [foldl_extended_scalar hbody (hscalars hfs), foldl_extended_scalar hbody
    (List.forall_mem_append.mpr ⟨hscalars hfs, hscalars hgs⟩)]
  simp [List.flatMap_append, List.flatMap_eq_nil_iff]

theorem map_extendedBy_builtin_iff (hfs : initial.Mergeable fs) (hgs : initial.Mergeable gs) :
    initial.declared.map (Declared.extendedBy (extensions fs)) =
        initial.declared.map (Declared.extendedBy (extensions fs ++ extensions gs)) ↔
      ∀ e ∈ extensions gs, e.name ∈ builtinScalars → e.directives = [] := by
  rw [List.map_inj_left]
  constructor
  · intro h e he hname
    rw [← names_initial, names_eq] at hname
    obtain ⟨x, hx, hxe⟩ := List.mem_map.mp hname
    exact (extendedBy_builtin_iff hfs hgs hx).mp (h x hx) e he hxe.symm
  · intro h x hx
    refine (extendedBy_builtin_iff hfs hgs hx).mpr fun e he hname => h e he ?_
    rw [hname, ← names_initial, names_eq]
    exact List.mem_map_of_mem hx

section Found

variable {f g : List TypeDef} {xs : List Declared}

theorem entry?_builtin {x : Declared} (hx : x ∈ initial.declared)
    (hr : r.declared = initial.declared.map (Declared.extendedBy f) ++ xs) :
    r.entry? x.name = some (x.extendedBy f) := by
  have hnodup := nodup_names_initial
  rw [names_eq] at hnodup
  have hmap : ((initial.declared.map (Declared.extendedBy f)).map Declared.name).Nodup := by
    rwa [map_name_extendedBy]
  have hfound := find?_key Declared.name hmap (List.mem_map_of_mem hx)
  rw [name_extendedBy] at hfound
  unfold entry?
  rw [hr, List.find?_append]
  exact Option.or_eq_some_iff.mpr (.inl hfound)

theorem entry?_of_not_builtin (hn : n ∉ builtinScalars)
    (hr : r.declared = initial.declared.map (Declared.extendedBy f) ++ xs)
    (hs : s.declared = initial.declared.map (Declared.extendedBy g) ++ xs) :
    r.entry? n = s.entry? n := by
  have hnone : ∀ f : List TypeDef, (initial.declared.map (Declared.extendedBy f)).find?
      (fun x => x.definition.name == n) = none := by
    intro f
    rw [List.find?_eq_none]
    intro x hx hname
    obtain ⟨y, hy, rfl⟩ := List.mem_map.mp hx
    rw [← names_initial, names_eq] at hn
    exact hn (List.mem_map.mpr ⟨y, hy, (name_extendedBy f y).symm.trans (eq_of_beq hname)⟩)
  unfold entry?
  rw [hr, hs, List.find?_append, List.find?_append, hnone, hnone]

end Found

theorem declared_applyRoots (r : TypeRegistry) (q : Sdl.NamedRoots) :
    (r.applyRoots q).declared = r.declared := by rw [applyRoots_eq]

theorem directives_applyRoots (r : TypeRegistry) (q : Sdl.NamedRoots) :
    (r.applyRoots q).directives = r.directives := by rw [applyRoots_eq]

theorem sources_applyRoots (r : TypeRegistry) (q : Sdl.NamedRoots) :
    (r.applyRoots q).sources = r.sources := by rw [applyRoots_eq]

theorem declared_of_mergeFragments (h : initial.mergeFragments fs = .done a) :
    a.declared = initial.declared.map (Declared.extendedBy (extensions fs)) ++
      (baseTypes fs).map (Declared.extendedBy (extensions fs)) := by
  obtain ⟨hfs, rfl⟩ := mergeFragments_eq_done_iff.mp h
  rw [declared_applyRoots, declared_mergedTypes nodup_names_initial hfs, List.map_append]

theorem directives_of_mergeFragments (h : r.mergeFragments fs = .done s) :
    s.directives = r.directives ++ directiveDefs fs := by
  obtain ⟨-, rfl⟩ := mergeFragments_eq_done_iff.mp h
  rw [directives_applyRoots, directives_mergedTypes]

theorem sources_of_mergeFragments (h : r.mergeFragments fs = .done s) :
    s.sources = r.sources ++ fs.map (·.source) := by
  obtain ⟨-, rfl⟩ := mergeFragments_eq_done_iff.mp h
  rw [sources_applyRoots, sources_mergedTypes]

theorem exists_merge_of_mergeFragments (ha : initial.mergeFragments fs = .done a)
    (hb : initial.mergeFragments gs = .done b) (hall : initial.Mergeable (fs ++ gs)) :
    ∃ m, a.merge b = .done m ∧
      m.declared = a.declared ++ (baseTypes gs).map (Declared.extendedBy (extensions gs)) ∧
      m.directives = a.directives ++ b.directives ∧ m.sources = a.sources ++ b.sources := by
  obtain ⟨-, hsecond⟩ := accepts_bases_append.mp hall.bases
  have hafter : a.names = (initial.withBases fs).names := by
    rw [names_eq, declared_of_mergeFragments ha, ← List.map_append, map_name_extendedBy,
      names_withBases, names_eq, List.map_append]
  refine merge_eq_done (declared_of_mergeFragments hb) ?_ ⟨?_, ?_⟩
  · intro d hd
    obtain ⟨x, hx, rfl⟩ := List.mem_map.mp hd
    rw [origin_extendedBy, name_extendedBy]
    refine ⟨origin_of_mem_initial hx, ?_⟩
    rw [hafter, names_withBases, names_eq]
    exact List.mem_append_left _ (List.mem_map_of_mem hx)
  · rw [map_name_extendedBy, hafter]
    exact hsecond.1
  · rw [directives_of_mergeFragments hb, directiveNames, directives_of_mergeFragments ha]
    exact hsecond.2

/-- Joining registries agrees with merging fragments, built-in scalars apart. If two lists of
fragments can be merged on their own and one after the other, then the registry of the second can be
joined to that of the first, with all types of all fragments in the same order and from the same
origins, and with the same directives and sources. Every type but the built-in scalars is the same,
and these are as the first list has them: so all types are the same just if no extension of the
second list adds a directive to a built-in scalar. -/
theorem merge_mergeFragments (ha : initial.mergeFragments fs = .done a)
    (hb : initial.mergeFragments gs = .done b) (hc : initial.mergeFragments (fs ++ gs) = .done c) :
    ∃ m, a.merge b = .done m ∧ m.names = c.names ∧ (∀ n, m.origin? n = c.origin? n) ∧
      m.directives = c.directives ∧ m.sources = c.sources ∧
      (∀ n, m.get? n = if n ∈ builtinScalars then a.get? n else c.get? n) ∧
      (m.declared = c.declared ↔
        ∀ e ∈ extensions gs, e.name ∈ builtinScalars → e.directives = []) := by
  have hfs := (mergeFragments_eq_done_iff.mp ha).1
  have hgs := (mergeFragments_eq_done_iff.mp hb).1
  obtain ⟨hall, hcm⟩ := mergeFragments_eq_done_iff.mp hc
  obtain ⟨m, hm, hdeclared, hdirectives, hsources⟩ := exists_merge_of_mergeFragments ha hb hall
  -- Both registries are the built-in scalars, each with its extensions, before the same types.
  have hc' : c.declared =
      initial.declared.map (Declared.extendedBy (extensions fs ++ extensions gs)) ++
        ((baseTypes fs).map (Declared.extendedBy (extensions fs)) ++
          (baseTypes gs).map (Declared.extendedBy (extensions gs))) := by
    rw [hcm, declared_applyRoots, declared_mergedTypes_append nodup_names_initial hfs hgs hall,
      List.append_assoc]
  have hm' : m.declared = initial.declared.map (Declared.extendedBy (extensions fs)) ++
      ((baseTypes fs).map (Declared.extendedBy (extensions fs)) ++
        (baseTypes gs).map (Declared.extendedBy (extensions gs))) := by
    rw [hdeclared, declared_of_mergeFragments ha, List.append_assoc]
  have hbuiltin : ∀ n ∈ builtinScalars, ∃ x ∈ initial.declared, x.name = n := by
    intro n hn
    rw [← names_initial, names_eq] at hn
    exact List.mem_map.mp hn
  refine ⟨m, hm, ?_, fun n => ?_, ?_, ?_, fun n => ?_, ?_⟩
  · simp only [names_eq, hm', hc', List.map_append, map_name_extendedBy]
  · by_cases hn : n ∈ builtinScalars
    · obtain ⟨x, hx, rfl⟩ := hbuiltin n hn
      rw [origin?, origin?, entry?_builtin hx hm', entry?_builtin hx hc']
      rfl
    · rw [origin?, origin?, entry?_of_not_builtin hn hm' hc']
  · rw [hdirectives, directives_of_mergeFragments ha, directives_of_mergeFragments hb,
      directives_of_mergeFragments hc, directiveDefs, directiveDefs, directiveDefs,
      List.flatMap_append]
    rfl
  · rw [hsources, sources_of_mergeFragments ha, sources_of_mergeFragments hb,
      sources_of_mergeFragments hc, List.map_append]
    rfl
  · split
    · rename_i hn
      obtain ⟨x, hx, rfl⟩ := hbuiltin n hn
      rw [get?, get?, entry?_builtin hx hm', entry?_builtin hx (declared_of_mergeFragments ha)]
    · rename_i hn
      rw [get?, get?, entry?_of_not_builtin hn hm' hc']
  · rw [hm', hc', List.append_cancel_right_eq]
    exact map_extendedBy_builtin_iff hfs hgs

theorem merge_mergeFragments_shows_films :
    let shows : Fragment := ⟨"shows", "a", [.type ⟨"Show", none, [], .object [] []⟩,
      .extension ⟨"ID", none, [⟨"tag", []⟩], .scalar⟩]⟩
    let films : Fragment := ⟨"films", "b", [.extension ⟨"Film", none, [], .object [] ["Node"]⟩,
      .type ⟨"Film", none, [], .object [] []⟩]⟩
    ∃ a b c m, initial.mergeFragments [shows] = .done a ∧ initial.mergeFragments [films] = .done b ∧
      initial.mergeFragments ([shows] ++ [films]) = .done c ∧ a.merge b = .done m ∧
      m.declared = c.declared ∧ m.names = builtinScalars ++ ["Show", "Film"] := by
  intro shows films
  have ha := Registration.eq_done_of_failure (x := initial.mergeFragments [shows])
    (by decide)
  have hb := Registration.eq_done_of_failure (x := initial.mergeFragments [films])
    (by decide)
  have hc := Registration.eq_done_of_failure (x := initial.mergeFragments ([shows] ++ [films]))
    (by decide)
  obtain ⟨m, hm, hnames, -, -, -, -, hsame⟩ := merge_mergeFragments ha hb hc
  refine ⟨_, _, _, m, ha, hb, hc, hm, hsame.mpr ?_, ?_⟩
  · intro e he hname
    rw [List.mem_singleton.mp he] at hname
    exact absurd hname (by decide)
  · rw [hnames]
    decide

/-- What the second list says of a built-in scalar is lost in the join. -/
theorem builtin_extension_not_joined :
    ¬ ∀ (fs gs : List Fragment) (a b c : TypeRegistry), initial.mergeFragments fs = .done a →
      initial.mergeFragments gs = .done b → initial.mergeFragments (fs ++ gs) = .done c →
      ∃ m, a.merge b = .done m ∧ m.declared = c.declared := by
  intro h
  let first : Fragment := ⟨"first", "", [.type ⟨"Query", none, [], .object [] []⟩]⟩
  let second : Fragment := ⟨"second", "", [.extension ⟨"ID", none, [⟨"tag", []⟩], .scalar⟩]⟩
  have ha := Registration.eq_done_of_failure (x := initial.mergeFragments [first])
    (by decide)
  have hb := Registration.eq_done_of_failure (x := initial.mergeFragments [second])
    (by decide)
  have hc := Registration.eq_done_of_failure (x := initial.mergeFragments ([first] ++ [second]))
    (by decide)
  obtain ⟨m, hm, hsame⟩ := h [first] [second] _ _ _ ha hb hc
  have hregistry : m = (merge (initial.mergeFragments [first]).registry
      (initial.mergeFragments [second]).registry).registry := by
    rw [hm]
    rfl
  have huses := congrArg (List.map fun x => x.definition.directives.length) hsame
  rw [hregistry] at huses
  exact absurd huses (by decide)

end TypeRegistry

end SchemaAssembly
