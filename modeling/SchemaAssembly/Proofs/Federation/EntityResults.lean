import SchemaAssembly.Federation.Entity
import SchemaAssembly.Proofs.Loader.SideBySide

/-!
The results of entity fetches. Each representation has its own part in the data and in the errors,
in the order of the representations, whatever becomes of the others. The errors give the position
of the representation, which is the position in the data only where no list was spliced in before.
-/

set_option autoImplicit false

namespace SchemaAssembly

def PathSegment.raised (n : Nat) : PathSegment → PathSegment
  | field name => field name
  | index i => index (i + n)

def ResponseError.raised (n : Nat) (e : ResponseError) : ResponseError :=
  { e with path := e.path.map (PathSegment.raised n) }

def FetchResult.items (r : FetchResult) : List Json := r.data.asList?.getD []

def FetchResult.followedBy (count : Nat) (first second : FetchResult) : FetchResult :=
  ⟨.list (first.items ++ second.items), first.errors ++ second.errors.map (.raised count)⟩

section Parts

variable {handler : ExceptionHandler} {c : Coordinates} {os ps : List Outcome}

theorem FailureReport.path_toError (r : FailureReport) : r.toError.path = r.path := rfl

theorem raised_toError (cause : HandlerError) (i n : Nat) :
    (FailureReport.toError ⟨cause, [.field "_entities", .index i], some c⟩).raised n =
      FailureReport.toError ⟨cause, [.field "_entities", .index (i + n)], some c⟩ := rfl

theorem entityErrors_raised (i n : Nat) (os : List Outcome) :
    entityErrors .standard c (i + n) os =
      (entityErrors .standard c i os).map (ResponseError.raised n) := by
  induction os generalizing i with
  | nil => rfl
  | cons o rest ih =>
    have hrest := ih (i + 1)
    rw [Nat.add_right_comm] at hrest
    cases o with
    | ok v => exact hrest
    | error cause =>
      simp only [entityErrors, ExceptionHandler.standard, List.map_append, List.map_singleton,
        raised_toError, hrest]

theorem entityErrors_append (i : Nat) (os ps : List Outcome) :
    entityErrors handler c i (os ++ ps) =
      entityErrors handler c i os ++ entityErrors handler c (i + os.length) ps := by
  induction os generalizing i with
  | nil => rfl
  | cons o rest ih =>
    have hrest := ih (i + 1)
    rw [Nat.add_assoc, Nat.add_comm 1] at hrest
    cases o with
    | ok v => exact hrest
    | error cause =>
      simp only [List.cons_append, entityErrors, List.append_assoc, List.length_cons, hrest]

theorem mem_entityErrors {err : ResponseError} {i : Nat} :
    err ∈ entityErrors .standard c i os ↔ ∃ k cause, os[k]? = some (.error cause) ∧
      err = FailureReport.toError ⟨cause, [.field "_entities", .index (i + k)], some c⟩ := by
  induction os generalizing i with
  | nil => simp [entityErrors]
  | cons o rest ih =>
    have hsplit : (∃ k cause, (o :: rest)[k]? = some (.error cause) ∧
        err = FailureReport.toError ⟨cause, [.field "_entities", .index (i + k)], some c⟩) ↔
        (∃ cause, o = .error cause ∧
          err = FailureReport.toError ⟨cause, [.field "_entities", .index i], some c⟩) ∨
        err ∈ entityErrors .standard c (i + 1) rest := by
      rw [ih]
      constructor
      · rintro ⟨k, cause, hk, rfl⟩
        cases k with
        | zero => exact .inl ⟨cause, Option.some.inj hk, rfl⟩
        | succ k => exact .inr ⟨k, cause, hk, by rw [Nat.add_right_comm, Nat.add_assoc]⟩
      · rintro (⟨cause, rfl, rfl⟩ | ⟨k, cause, hk, rfl⟩)
        · exact ⟨0, cause, rfl, rfl⟩
        · exact ⟨k + 1, cause, hk, by rw [Nat.add_right_comm, Nat.add_assoc]⟩
    rw [hsplit]
    cases o with
    | ok v => simp [entityErrors]
    | error cause => simp [entityErrors, ExceptionHandler.standard]

end Parts

namespace EntityTable

variable {t : EntityTable} {e : FieldEnvironment} {R : Replies}

/-- The fetch for representations that stand from position `i` on. -/
def fetchFrom (t : EntityTable) (e : FieldEnvironment) (i : Nat) (representations : List Json) :
    Work FetchResult :=
  (Work.all (representations.map (t.work e))).map fun outcomes =>
    ⟨.list (outcomes.flatMap entityData), entityErrors .standard e.coordinates i outcomes⟩

def joined (p : FetchResult × FetchResult) : FetchResult :=
  ⟨.list (p.1.items ++ p.2.items), p.1.errors ++ p.2.errors⟩

theorem fetchFrom_cons (i : Nat) (representation : Json) (rest : List Json) :
    t.fetchFrom e i (representation :: rest) =
      ((t.work e representation).beside (t.fetchFrom e (i + 1) rest)).map fun p =>
        ⟨.list (entityData p.1 ++ p.2.items),
          entityErrors .standard e.coordinates i [p.1] ++ p.2.errors⟩ := by
  simp only [fetchFrom, List.map_cons, Work.all, Work.map_map, Work.beside_map_right]
  congr 1
  funext p
  rw [← List.singleton_append, List.flatMap_append, List.flatMap_singleton, entityErrors_append]
  rfl

theorem fetchFrom_append (i : Nat) (first second : List Json) :
    t.fetchFrom e i (first ++ second) =
      ((t.fetchFrom e i first).beside (t.fetchFrom e (i + first.length) second)).map joined := by
  induction first generalizing i with
  | nil =>
    have hnone : t.fetchFrom e i [] = .done ⟨.list [], []⟩ := rfl
    rw [List.nil_append, List.length_nil, Nat.add_zero, hnone, Work.beside, Work.map_map, fetchFrom,
      Work.map_map]
    rfl
  | cons representation rest ih =>
    rw [List.cons_append, fetchFrom_cons, fetchFrom_cons, ih, Work.beside_map_right,
      Work.map_beside, Work.beside_assoc, List.length_cons, Nat.add_right_comm]
    simp only [Work.map_map, Work.pairedFirst, joined, Nat.add_assoc]
    congr 1
    funext p
    simp [FetchResult.items, Json.asList?]

theorem fetchFrom_raised (n : Nat) (representations : List Json) :
    t.fetchFrom e n representations = (t.fetchFrom e 0 representations).map fun r =>
      ⟨r.data, r.errors.map (.raised n)⟩ := by
  simp only [fetchFrom, Work.map_map]
  congr 1
  funext outcomes
  rw [← entityErrors_raised, Nat.zero_add]

theorem fetch_append_eq (first second : List Json) :
    t.fetch .standard e (first ++ second) =
      ((t.fetch .standard e first).beside (t.fetch .standard e second)).map fun p =>
        p.1.followedBy first.length p.2 := by
  have happend := fetchFrom_append (t := t) (e := e) 0 first second
  rw [Nat.zero_add, fetchFrom_raised first.length, Work.beside_map_right, Work.map_map] at happend
  exact happend

/-- What a fetch can end with: the outcomes of the representations, put together. -/
theorem ends_fetch_iff {handler : ExceptionHandler} {representations : List Json}
    {r : FetchResult} : (t.fetch handler e representations).Ends R r ↔
      ∃ outcomes, List.Forall₂ (fun v o => (t.work e v).Ends R o) representations outcomes ∧
        entityResult handler e.coordinates outcomes = r := by
  simp only [fetch, Work.ends_map, Work.ends_all, List.forall₂_map_left_iff]

/-- The representation is given to the handler of the type that it names, with this result. -/
inductive Answers (t : EntityTable) (e : FieldEnvironment) : Json → HandlerResult → Prop where
  | intro {members : Representation} {typename : String} {f : EntityFetcher}
      {result : HandlerResult} (named : findNamed? "__typename" members = some (.str typename))
      (known : Entries.get? typename t = some f)
      (answers : f.handler.invoke members e = .ok result) : Answers t e (.obj members) result

/-- Why a representation has no value. -/
inductive Fails (R : Replies) (t : EntityTable) (e : FieldEnvironment) : Json → Prop where
  | noObject {v : Json} (h : ∀ members, v ≠ .obj members) : Fails R t e v
  | noTypename {members : Representation}
      (h : ∀ typename, findNamed? "__typename" members ≠ some (.str typename)) :
      Fails R t e (.obj members)
  | noFetcher {members : Representation} {typename : String}
      (named : findNamed? "__typename" members = some (.str typename))
      (unknown : Entries.get? typename t = none) : Fails R t e (.obj members)
  | refused {members : Representation} {typename : String} {f : EntityFetcher}
      {cause : HandlerError} (named : findNamed? "__typename" members = some (.str typename))
      (known : Entries.get? typename t = some f)
      (refuses : f.handler.invoke members e = .error cause) : Fails R t e (.obj members)
  | failed {v : Json} {result : HandlerResult} {cause : HandlerError}
      (answers : Answers t e v result) (fails : result.toWork.Ends R (.error cause)) : Fails R t e v

theorem Answers.work_eq {v : Json} {result : HandlerResult} (h : t.Answers e v result) :
    t.work e v = result.toWork := by
  obtain ⟨named, known, answers⟩ := h
  simp [work, invoke, named, known, answers, Json.asString?]

theorem Fails.exists_cause {v : Json} (h : Fails R t e v) :
    ∃ cause, (t.work e v).Ends R (.error cause) := by
  cases h with
  | noObject h =>
    cases v with
    | obj members => exact absurd rfl (h members)
    | _ => exact ⟨_, rfl⟩
  | @noTypename members h =>
    have hnone : (findNamed? "__typename" members).bind Json.asString? = none := by
      cases hfound : findNamed? "__typename" members with
      | none => rfl
      | some v =>
        cases v with
        | str typename => exact absurd hfound (h typename)
        | _ => rfl
    exact ⟨.ofBadRequest .missingTypename, by simp [work, invoke, hnone, Work.Ends]⟩
  | @noFetcher members typename named unknown =>
    exact ⟨.ofResolution (.missingEntityFetcher typename),
      by simp [work, invoke, named, unknown, Json.asString?, Work.Ends]⟩
  | @refused members typename f cause named known refuses =>
    exact ⟨cause, by simp [work, invoke, named, known, refuses, Json.asString?, Work.Ends]⟩
  | failed answers fails =>
    rw [answers.work_eq]
    exact ⟨_, fails⟩

/-- Fetches are in order and isolated, for handlers that answer a representation in one way, given
the replies of the loaders. The results for two lists are those for the first followed by those for
the second. A list stands with its items, any other value by itself, and whatever fails leaves null
and one error. -/
theorem fetch_append (t : EntityTable) (e : FieldEnvironment) (R : Replies)
    (answer : Json → Outcome) (hanswer : ∀ v o, (t.work e v).Ends R o ↔ o = answer v) :
    (∀ first second, t.fetch .standard e (first ++ second) =
      ((t.fetch .standard e first).beside (t.fetch .standard e second)).map fun p =>
        p.1.followedBy first.length p.2) ∧
    ∃ (data : List Json → List Json) (errors : List Json → List ResponseError),
      (∀ vs r, (t.fetch .standard e vs).Ends R r ↔ r = ⟨.list (data vs), errors vs⟩) ∧
      (∀ first second, data (first ++ second) = data first ++ data second ∧
        errors (first ++ second) = errors first ++ (errors second).map (.raised first.length)) ∧
      (∀ v result items, t.Answers e v result → result.toWork.Ends R (.ok (.list items)) →
        data [v] = items ∧ errors [v] = []) ∧
      (∀ v result x, t.Answers e v result → result.toWork.Ends R (.ok x) →
        (∀ items, x ≠ .list items) → data [v] = [x] ∧ errors [v] = []) ∧
      ∀ v, Fails R t e v → data [v] = [.null] ∧ ∃ err, errors [v] = [err] := by
  have hforall : ∀ vs outcomes,
      List.Forall₂ (fun v o => (t.work e v).Ends R o) vs outcomes ↔ outcomes = vs.map answer := by
    intro vs outcomes
    have hanswers : (fun v o => (t.work e v).Ends R o) = fun v o => answer v = o := by
      funext v o
      exact propext ((hanswer v o).trans eq_comm)
    rw [hanswers, ← List.forall₂_map_left_iff, List.forall₂_eq_eq_eq, eq_comm]
  refine ⟨fetch_append_eq, fun vs => (vs.map answer).flatMap entityData,
    fun vs => entityErrors .standard e.coordinates 0 (vs.map answer), ?_, ?_, ?_, ?_, ?_⟩
  · intro vs r
    simp only [ends_fetch_iff, hforall, exists_eq_left, entityResult, eq_comm]
  · intro first second
    refine ⟨by simp, ?_⟩
    dsimp only
    rw [List.map_append, entityErrors_append, List.length_map, Nat.zero_add, ← entityErrors_raised,
      Nat.zero_add]
  · intro v result items hresult hends
    rw [← hresult.work_eq, hanswer] at hends
    simp [← hends, entityData, entityErrors]
  · intro v result x hresult hends hx
    rw [← hresult.work_eq, hanswer] at hends
    refine ⟨?_, by simp [← hends, entityErrors]⟩
    cases x with
    | list items => exact absurd rfl (hx items)
    | _ => simp [← hends, entityData]
  · intro v hfails
    obtain ⟨cause, hends⟩ := hfails.exists_cause
    rw [hanswer] at hends
    simp [← hends, entityData, entityErrors, ExceptionHandler.standard]

def broadcast : EntityTable :=
  [("Episode", ⟨"episodes", .representation fun _ => .ok (.value (.list [.int 1, .int 2]))⟩),
    ("Review", ⟨"reviews", .withEnvironment fun _ e => .ok (.deferred
      (.load "reviews" .null fun _ => .done (.ok (.str e.coordinates.field))))⟩)]

theorem invoke_broadcast (e : FieldEnvironment) (v : Json) :
    (∃ cause, broadcast.invoke e v = .error cause) ∨
      broadcast.invoke e v = .ok (.value (.list [.int 1, .int 2])) ∨
      broadcast.invoke e v = .ok (.deferred
        (.load "reviews" .null fun _ => .done (.ok (.str e.coordinates.field)))) := by
  cases v with
  | obj members =>
    simp only [invoke, broadcast, Entries.get?]
    cases (findNamed? "__typename" members).bind Json.asString? with
    | none => exact .inl ⟨_, rfl⟩
    | some typename =>
      by_cases hepisode : "Episode" = typename
      · simp only [hepisode, if_true]
        exact .inr (.inl rfl)
      · by_cases hreview : "Review" = typename
        · simp only [hepisode, hreview, if_true, if_false]
          exact .inr (.inr rfl)
        · simp only [hepisode, hreview, if_false]
          exact .inl ⟨_, rfl⟩
  | _ => exact .inl ⟨_, rfl⟩

def broadcastAnswer (e : FieldEnvironment) (v : Json) : Outcome :=
  match broadcast.invoke e v with
  | .ok (.value x) => .ok x
  | .ok _ => .ok (.str e.coordinates.field)
  | .error cause => .error cause

theorem ends_broadcast_iff (e : FieldEnvironment) (v : Json) (o : Outcome) :
    (broadcast.work e v).Ends .any o ↔ o = broadcastAnswer e v := by
  rcases invoke_broadcast e v with ⟨cause, h⟩ | h | h
  · simp only [work, broadcastAnswer, h, Work.Ends, eq_comm]
  · simp only [work, broadcastAnswer, h, HandlerResult.toWork, Work.Ends, eq_comm]
  · simp only [work, broadcastAnswer, h, HandlerResult.toWork, Work.Ends]
    constructor
    · rintro ⟨_, -, heq⟩
      exact heq.symm
    · intro heq
      exact ⟨none, trivial, heq.symm⟩

def named (typename : String) : Json := .obj [("__typename", .str typename)]

theorem fetch_append_broadcast :
    let e : FieldEnvironment := .of ⟨"Query", "_entities"⟩
    (∀ v o, (broadcast.work e v).Ends .any o ↔ o = broadcastAnswer e v) ∧
    ∃ (data : List Json → List Json) (errors : List Json → List ResponseError),
      (∀ vs r, (broadcast.fetch .standard e vs).Ends .any r ↔ r = ⟨.list (data vs), errors vs⟩) ∧
      data [named "Episode", named "Film"] ++ data [named "Review", .null] =
        [.int 1, .int 2, .null, .str "_entities", .null] ∧
      (errors [named "Episode", named "Film"] ++
        (errors [named "Review", .null]).map (ResponseError.raised 2)).map ResponseError.path =
        [[.field "_entities", .index 1], [.field "_entities", .index 3]] := by
  intro e
  obtain ⟨-, data, errors, hends, happend, -⟩ :=
    fetch_append broadcast e .any (broadcastAnswer e) (ends_broadcast_iff e)
  refine ⟨ends_broadcast_iff e, data, errors, hends, ?_⟩
  obtain ⟨hdata, herrors⟩ := happend [named "Episode", named "Film"] [named "Review", .null]
  let outcomes : List Outcome := [.ok (.list [.int 1, .int 2]),
    .error (.ofResolution (.missingEntityFetcher "Film")), .ok (.str "_entities"),
    .error (.ofBadRequest .missingTypename)]
  have hresult : entityResult .standard e.coordinates outcomes = _ :=
    (hends ([named "Episode", named "Film"] ++ [named "Review", .null]) _).mp ⟨none, trivial, rfl⟩
  rw [hdata, herrors] at hresult
  exact ⟨(congrArg FetchResult.items hresult).symm,
    (congrArg (fun r : FetchResult => r.errors.map ResponseError.path) hresult).symm⟩

end EntityTable

/-- The items of the data with the positions of the representations that they come from. -/
def entitySlots : Nat → List Outcome → List (Nat × Json)
  | _, [] => []
  | i, o :: rest => (entityData o).map (fun v => (i, v)) ++ entitySlots (i + 1) rest

section Slots

variable {c : Coordinates} {os ps : List Outcome}

theorem map_snd_entitySlots (i : Nat) (os : List Outcome) :
    (entitySlots i os).map Prod.snd = os.flatMap entityData := by
  induction os generalizing i with
  | nil => rfl
  | cons o rest ih => simp [entitySlots, ih, Function.comp_def]

theorem entitySlots_append (i : Nat) (os ps : List Outcome) :
    entitySlots i (os ++ ps) = entitySlots i os ++ entitySlots (i + os.length) ps := by
  induction os generalizing i with
  | nil => rfl
  | cons o rest ih =>
    simp only [List.cons_append, entitySlots, ih, List.append_assoc, List.length_cons,
      Nat.add_assoc, Nat.add_comm 1]

theorem bounds_of_mem_entitySlots {i : Nat} {s : Nat × Json} (h : s ∈ entitySlots i os) :
    i ≤ s.1 ∧ s.1 < i + os.length := by
  induction os generalizing i with
  | nil => cases h
  | cons o rest ih =>
    rw [entitySlots, List.mem_append] at h
    rw [List.length_cons]
    rcases h with h | h
    · obtain ⟨v, -, rfl⟩ := List.mem_map.mp h
      dsimp only
      omega
    · have hrest := ih h
      omega

theorem length_entitySlots (i : Nat) (os : List Outcome) :
    (entitySlots i os).length = (os.flatMap entityData).length := by
  rw [← map_snd_entitySlots i, List.length_map]

/-- The null of a failed representation stands after the items of all representations before it,
and nowhere else. -/
theorem getElem?_entitySlots_failed {k p : Nat} {cause : HandlerError}
    (hk : os[k]? = some (.error cause)) :
    (entitySlots 0 os)[p]? = some (k, .null) ↔ p = ((os.take k).flatMap entityData).length := by
  obtain ⟨hlt, hget⟩ := List.getElem?_eq_some_iff.mp hk
  have hparts : os = os.take k ++ .error cause :: os.drop (k + 1) := by
    rw [← hget, List.getElem_cons_drop, List.take_append_drop]
  have htake : (os.take k).length = k := by
    rw [List.length_take]
    omega
  have hslots : entitySlots 0 os =
      entitySlots 0 (os.take k) ++ (k, .null) :: entitySlots (k + 1) (os.drop (k + 1)) := by
    conv => lhs; rw [hparts]
    rw [entitySlots_append, htake, Nat.zero_add, entitySlots]
    rfl
  rw [← length_entitySlots 0, hslots]
  constructor
  · intro h
    -- Slots before it belong to earlier representations, slots after it to later ones.
    rcases Nat.lt_trichotomy p (entitySlots 0 (os.take k)).length with hp | hp | hp
    · rw [List.getElem?_append_left hp] at h
      have hbounds := bounds_of_mem_entitySlots (List.mem_of_getElem? h)
      omega
    · exact hp
    · rw [List.getElem?_append_right (Nat.le_of_lt hp)] at h
      obtain ⟨q, hq⟩ := Nat.exists_eq_succ_of_ne_zero (Nat.sub_ne_zero_of_lt hp)
      rw [hq, List.getElem?_cons_succ] at h
      have hbounds := bounds_of_mem_entitySlots (List.mem_of_getElem? h)
      omega
  · rintro rfl
    rw [List.getElem?_append_right (Nat.le_refl _), Nat.sub_self, List.getElem?_cons_zero]

end Slots

namespace EntityTable

variable {t : EntityTable} {e : FieldEnvironment} {R : Replies}

/-- Every error is that of a representation that failed and gives its position. The null of that
representation stands after all items of those before it, so the position is the one in the data
just if they gave as many items as there are of them. -/
theorem error_path_iff {representations : List Json} {r : FetchResult}
    (h : (t.fetch .standard e representations).Ends R r) :
    ∃ outcomes, List.Forall₂ (fun v o => (t.work e v).Ends R o) representations outcomes ∧
      r.data = .list ((entitySlots 0 outcomes).map Prod.snd) ∧
      ∀ err ∈ r.errors, ∃ i cause, err.path = [.field "_entities", .index i] ∧
        outcomes[i]? = some (.error cause) ∧
        (entitySlots 0 outcomes)[((outcomes.take i).flatMap entityData).length]? =
          some (i, .null) ∧
        ((entitySlots 0 outcomes)[i]? = some (i, .null) ↔
          ((outcomes.take i).flatMap entityData).length = i) := by
  obtain ⟨outcomes, houtcomes, rfl⟩ := ends_fetch_iff.mp h
  refine ⟨outcomes, houtcomes, ?_, ?_⟩
  · rw [map_snd_entitySlots]
    rfl
  · intro err herr
    obtain ⟨i, cause, hi, rfl⟩ := mem_entityErrors.mp herr
    refine ⟨i, cause, by rw [FailureReport.path_toError, Nat.zero_add], hi,
      (getElem?_entitySlots_failed hi).mpr rfl, ?_⟩
    rw [getElem?_entitySlots_failed hi, eq_comm]

theorem error_path_iff_broadcast :
    let e : FieldEnvironment := .of ⟨"Query", "_entities"⟩
    let outcomes : List Outcome := [.error (.ofResolution (.missingEntityFetcher "Film")),
      .ok (.list [.int 1, .int 2]), .error (.ofResolution (.missingEntityFetcher "Film"))]
    let r := entityResult .standard e.coordinates outcomes
    (broadcast.fetch .standard e [named "Film", named "Episode", named "Film"]).Ends .any r ∧
      r.data = .list [.null, .int 1, .int 2, .null] ∧
      ∀ err ∈ r.errors, ∃ i, err.path = [.field "_entities", .index i] ∧
        ((entitySlots 0 outcomes)[i]? = some (i, .null) ↔
          ((outcomes.take i).flatMap entityData).length = i) := by
  intro e outcomes r
  have hends : (broadcast.fetch .standard e
      [named "Film", named "Episode", named "Film"]).Ends .any r := rfl
  refine ⟨hends, rfl, ?_⟩
  obtain ⟨others, hothers, -, herrors⟩ := error_path_iff hends
  have hfilm : ∀ o, (broadcast.work e (named "Film")).Ends .any o →
      o = .error (.ofResolution (.missingEntityFetcher "Film")) := fun _ h => h.symm
  have hepisode : ∀ o, (broadcast.work e (named "Episode")).Ends .any o →
      o = .ok (.list [.int 1, .int 2]) := fun _ h => h.symm
  obtain rfl : others = outcomes := by
    obtain _ | ⟨h₁, _ | ⟨h₂, _ | ⟨h₃, _ | _⟩⟩⟩ := hothers
    rw [hfilm _ h₁, hepisode _ h₂, hfilm _ h₃]
  intro err herr
  obtain ⟨i, -, hpath, -, -, hslot⟩ := herrors err herr
  exact ⟨i, hpath, hslot⟩

/-- After a list the position in a path is not that of a null: two items stand where one
representation was. -/
theorem error_path_misses_null :
    ¬ ∀ (t : EntityTable) (e : FieldEnvironment) (R : Replies) (vs : List Json) (r : FetchResult),
      (t.fetch .standard e vs).Ends R r → ∀ err ∈ r.errors, ∃ i items,
        err.path = [.field "_entities", .index i] ∧ r.data = .list items ∧
          items[i]? = some .null := by
  intro h
  obtain ⟨i, items, hpath, hdata, hnull⟩ := h broadcast (.of ⟨"Query", "_entities"⟩) .any
    [named "Episode", named "Film"] _ rfl _ (List.mem_singleton_self _)
  cases hpath
  cases hdata
  cases hnull

end EntityTable

end SchemaAssembly
