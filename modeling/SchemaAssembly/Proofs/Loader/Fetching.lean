import SchemaAssembly.Proofs.Loader.Clients
import SchemaAssembly.Proofs.Loader.Dispatching

/-!
Loads and dispatches of a client that waits for the end of each dispatch. A loader that caches asks
for a key until a call for it succeeds, and from then on everybody gets the answer of that call.
-/

set_option autoImplicit false

namespace SchemaAssembly

structure BatchCall where
  keys : List Json
  answer : Except HandlerError (List Json)

def BatchCall.values? (b : BatchCall) : Option (List Json) := valuesFor? b.keys.length b.answer

def Chunk.call (answers : Nat → Except HandlerError (List Json)) (c : Chunk) : BatchCall :=
  ⟨c.keys, answers c.id⟩

theorem Chunk.values?_call (answers : Nat → Except HandlerError (List Json)) (c : Chunk) :
    (c.call answers).values? = valuesFor? c.entries.length (answers c.id) := by
  rw [BatchCall.values?, call, length_keys]

namespace Loader

/-- What the holder of a ticket has got by now. -/
def got? (l : Loader) : Ticket → Option (Except LoaderError Json)
  | .answered value => some (.ok value)
  | .queued _ w => l.result? w
  | .direct _ _ => none

/-- What a client has done since the first state: its dispatches, each with its calls of the batch
function, and its loads with their tickets. Every dispatch ends before the client goes on; its calls
end in any order, with any answers. Several keys are loaded one after the other. -/
inductive SerialHistory (l₀ : Loader) :
    Loader → List (List BatchCall) → List (Json × Ticket) → Prop where
  | start : SerialHistory l₀ l₀ [] []
  | load {l : Loader} {dispatches : List (List BatchCall)} {loads : List (Json × Ticket)}
      (h : SerialHistory l₀ l dispatches loads) (key : Json) :
      SerialHistory l₀ (l.load key).1 dispatches (loads ++ [(key, (l.load key).2)])
  | dispatch {l : Loader} {dispatches : List (List BatchCall)} {loads : List (Json × Ticket)}
      (h : SerialHistory l₀ l dispatches loads)
      (answers : Nat → Except HandlerError (List Json)) {order : List Chunk}
      (horder : order.Perm l.nextChunks) (now : Nat) :
      SerialHistory l₀ (l.run (.start now :: chunkEnds answers order))
        (dispatches ++ [l.nextChunks.map (Chunk.call answers)]) loads

variable {l t : Loader} {key : Json} {v : Json} {dispatches : List (List BatchCall)}
  {loads : List (Json × Ticket)} {answers : Nat → Except HandlerError (List Json)}

section Cache

/-- No queued key is cached. -/
def Uncached (l : Loader) : Prop := ∀ e ∈ l.queue, l.cached? e.key = none

theorem keys_nextChunks (l : Loader) : l.nextChunks.flatMap Chunk.keys = l.queue.map (·.key) := by
  rw [← l.flatMap_entries_nextChunks, List.map_flatMap]
  rfl

theorem WellFormed.nodup_keys (h : l.WellFormed) (hc : l.options.caching = true) :
    (l.nextChunks.flatMap Chunk.keys).Nodup := by
  rw [keys_nextChunks]
  refine List.Nodup.of_map Json.text ?_
  rw [List.map_map]
  exact h.distinct hc

theorem mem_queue_of_chunk {c : Chunk} {e : QueueEntry} (hc : c ∈ l.nextChunks)
    (he : e ∈ c.entries) : e ∈ l.queue := by
  rw [← l.flatMap_entries_nextChunks]
  exact List.mem_flatMap.mpr ⟨c, hc, he⟩

theorem Uncached.notMem_keys (h : l.Uncached) (hv : l.cached? key = some v) {c : Chunk}
    (hc : c ∈ l.nextChunks) : key ∉ c.keys := by
  intro hkey
  obtain ⟨e, he, rfl⟩ := List.mem_map.mp hkey
  rw [h e (mem_queue_of_chunk hc he)] at hv
  cases hv

theorem notMem_textsOf {c : Chunk} (h : key ∉ c.keys) : key.text ∉ textsOf c.entries := by
  intro htext
  obtain ⟨e, he, heq⟩ := List.mem_map.mp htext
  exact h (List.mem_map.mpr ⟨e, he, Json.text_injective heq⟩)

theorem Dispatched.cached?_of_cached (h : Dispatched l answers t) (hopt : t.options = l.options)
    (hc : l.options.caching = true) (hu : l.Uncached) (hv : l.cached? key = some v) :
    t.cached? key = some v := by
  rw [cached?_of_caching (hopt ▸ hc)]
  rw [h.kept key.text fun _ c hin _ => notMem_textsOf (hu.notMem_keys hv hin),
    ← cached?_of_caching hc, hv]

theorem Dispatched.cached?_of_call (h : Dispatched l answers t) (hopt : t.options = l.options)
    (hc : l.options.caching = true) {c : Chunk} (hin : c ∈ l.nextChunks) {values : List Json}
    (hvalues : valuesFor? c.entries.length (answers c.id) = some values) {i : Nat}
    (hkey : c.keys[i]? = some key) (hv : values[i]? = some v) : t.cached? key = some v := by
  obtain ⟨e, he, rfl⟩ := Chunk.getElem?_keys_eq_some_iff.mp hkey
  rw [cached?_of_caching (hopt ▸ hc)]
  exact h.cached hc c hin values hvalues i e v he hv

end Cache

/-- What a loader remembers of a history, and what its client has got from it. -/
structure Remembers (l : Loader) (dispatches : List (List BatchCall))
    (loads : List (Json × Ticket)) : Prop where
  wellFormed : l.WellFormed
  caching : l.options.caching = true
  batching : l.options.batching = true
  uncached : l.Uncached
  distinct : ∀ calls ∈ dispatches, (calls.flatMap (·.keys)).Nodup
  brought : ∀ b ∈ dispatches.flatten, ∀ values, b.values? = some values →
    ∀ (i : Nat) key v, b.keys[i]? = some key → values[i]? = some v → l.cached? key = some v
  once : dispatches.flatten.Pairwise fun b d =>
    b.values?.isSome → ∀ key ∈ b.keys, key ∉ d.keys
  waits : ∀ key name w, (key, Ticket.queued name w) ∈ loads →
    w < l.waiterCount ∧ l.WaitsFor w key
  given : ∀ key ticket, (key, ticket) ∈ loads → ∀ v, l.got? ticket = some (.ok v) →
    l.cached? key = some v

theorem remembers_fresh {name : String} {options : LoaderOptions} {created : Nat}
    (hc : options.caching = true) (hb : options.batching = true) :
    (fresh name options created).Remembers [] [] where
  wellFormed := wellFormed_fresh name options created
  caching := hc
  batching := hb
  uncached _ he := absurd he List.not_mem_nil
  distinct _ h := absurd h List.not_mem_nil
  brought _ h := absurd h List.not_mem_nil
  once := .nil
  waits _ _ _ h := absurd h List.not_mem_nil
  given _ _ h := absurd h List.not_mem_nil

section Load

@[simp] theorem settled_load (l : Loader) (key : Json) : (l.load key).1.settled = l.settled := by
  have heff := effect_load l key
  generalize (l.load key).1 = t at heff ⊢
  cases heff <;> rfl

@[simp] theorem cached?_load (l : Loader) (key k : Json) :
    (l.load key).1.cached? k = l.cached? k := by
  rw [cached?, cached?, (effect_load l key).options_eq, cache_load]

@[simp] theorem got?_load (l : Loader) (key : Json) (ticket : Ticket) :
    (l.load key).1.got? ticket = l.got? ticket := by
  cases ticket <;> simp [got?, result?]

theorem Effect.key_of_mem_queue (h : Effect l (.load key) t) {e : QueueEntry} (he : e ∈ t.queue) :
    (∃ d ∈ l.queue, d.key = e.key) ∨ e.key = key := by
  cases h with
  | keep => exact .inl ⟨e, he, rfl⟩
  | join statistics hb hs =>
    rcases mem_modify_join he with he | ⟨d, hd, rfl⟩
    · exact .inl ⟨e, he, rfl⟩
    · exact .inl ⟨d, List.mem_of_getElem? hd, rfl⟩
  | enqueue statistics hb hs =>
    rcases List.mem_append.mp he with he | he
    · exact .inl ⟨e, he, rfl⟩
    · exact .inr (by rw [List.mem_singleton.mp he])

theorem Uncached.load (h : l.Uncached) (hmiss : l.cached? key = none) :
    (l.load key).1.Uncached := by
  intro e he
  rw [cached?_load]
  rcases (effect_load l key).key_of_mem_queue he with ⟨d, hd, hkey⟩ | hkey
  · rw [← hkey]
    exact h d hd
  · rw [hkey, hmiss]

/-- A load either gives what is cached or a ticket for which nothing is there yet. -/
theorem Remembers.given_load (h : l.Remembers dispatches loads) (key : Json)
    (hgot : l.got? (l.load key).2 = some (.ok v)) : l.cached? key = some v := by
  cases hcached : l.cached? key with
  | some value =>
    rw [load_hit hcached] at hgot
    obtain rfl : value = v := by simpa [got?] using hgot
    rfl
  | none =>
    rw [(h.wellFormed.queued_of_miss h.batching hcached).1] at hgot
    obtain ⟨p, hp, -⟩ := Option.map_eq_some_iff.mp hgot
    have hw : p.1 = l.waiterCount := by simpa using List.find?_some hp
    have hmem : (l.waiterCount, p.2) ∈ l.settled := hw ▸ List.mem_of_find?_eq_some hp
    exact absurd (mem_waiters_of_settled hmem) h.wellFormed.waiterCount_notMem

theorem Remembers.waits_load (h : l.Remembers dispatches loads) {name : String} {w : Nat}
    (hticket : (l.load key).2 = .queued name w) :
    w < (l.load key).1.waiterCount ∧ (l.load key).1.WaitsFor w key := by
  cases hcached : l.cached? key with
  | some value =>
    rw [load_hit hcached] at hticket
    cases hticket
  | none =>
    obtain ⟨hqueued, -, hcount, -⟩ := h.wellFormed.queued_of_miss h.batching hcached
    rw [hqueued] at hticket
    obtain ⟨-, rfl⟩ := Ticket.queued.inj hticket
    exact ⟨by omega, h.wellFormed.waitsFor_load key⟩

theorem Remembers.load (h : l.Remembers dispatches loads) (key : Json) :
    (l.load key).1.Remembers dispatches (loads ++ [(key, (l.load key).2)]) := by
  have heff := effect_load l key
  exact {
    wellFormed := h.wellFormed.step (.load key)
    caching := by rw [heff.options_eq, h.caching]
    batching := by rw [heff.options_eq, h.batching]
    uncached := by
      cases hcached : l.cached? key with
      | some value =>
        rw [load_hit hcached]
        exact h.uncached
      | none => exact h.uncached.load hcached
    distinct := h.distinct
    brought := by simpa using h.brought
    once := h.once
    waits := by
      intro k name w hmem
      rcases List.mem_append.mp hmem with hmem | hmem
      · obtain ⟨hw, hwait⟩ := h.waits k name w hmem
        exact ⟨Nat.lt_of_lt_of_le hw heff.waiterCount_le, hwait.effect hw heff⟩
      · obtain ⟨rfl, hticket⟩ := Prod.mk.inj (List.mem_singleton.mp hmem)
        exact h.waits_load hticket.symm
    given := by
      intro k ticket hmem v hgot
      rw [got?_load] at hgot
      rw [cached?_load]
      rcases List.mem_append.mp hmem with hmem | hmem
      · exact h.given k ticket hmem v hgot
      · obtain ⟨rfl, rfl⟩ := Prod.mk.inj (List.mem_singleton.mp hmem)
        exact h.given_load k hgot }

end Load

section Dispatch

variable {order : List Chunk}

theorem mem_calls {b : BatchCall} (h : b ∈ l.nextChunks.map (Chunk.call answers)) :
    ∃ c ∈ l.nextChunks, b = c.call answers := by
  obtain ⟨c, hc, rfl⟩ := List.mem_map.mp h
  exact ⟨c, hc, rfl⟩

theorem Remembers.notMem_keys (h : l.Remembers dispatches loads) {b : BatchCall}
    (hb : b ∈ dispatches.flatten) (hsome : b.values?.isSome) (hkey : key ∈ b.keys) {c : Chunk}
    (hc : c ∈ l.nextChunks) : key ∉ c.keys := by
  obtain ⟨values, hvalues⟩ := Option.isSome_iff_exists.mp hsome
  obtain ⟨i, hi⟩ := List.mem_iff_getElem?.mp hkey
  have hlt : i < values.length := by
    rw [length_of_valuesFor? hvalues]
    exact (List.getElem?_eq_some_iff.mp hi).1
  have hcached := h.brought b hb values hvalues i key _ hi (List.getElem?_eq_getElem hlt)
  exact h.uncached.notMem_keys hcached hc

theorem pairwise_calls (h : (l.nextChunks.flatMap Chunk.keys).Nodup) :
    (l.nextChunks.map (Chunk.call answers)).Pairwise fun b d =>
      b.values?.isSome → ∀ key ∈ b.keys, key ∉ d.keys := by
  rw [List.nodup_flatMap] at h
  rw [List.pairwise_map]
  exact h.2.imp fun hdisjoint _ key hkey hother => hdisjoint hkey hother

theorem Remembers.once_dispatch (h : l.Remembers dispatches loads) :
    (dispatches ++ [l.nextChunks.map (Chunk.call answers)]).flatten.Pairwise fun b d =>
      b.values?.isSome → ∀ key ∈ b.keys, key ∉ d.keys := by
  rw [List.flatten_append, List.flatten_singleton, List.pairwise_append]
  refine ⟨h.once, pairwise_calls (h.wellFormed.nodup_keys h.caching), ?_⟩
  intro b hb d hd hsome key hkey
  obtain ⟨c, hc, rfl⟩ := mem_calls hd
  exact h.notMem_keys hb hsome hkey hc

theorem Remembers.given_dispatch (h : l.Remembers dispatches loads) (hd : Dispatched l answers t)
    (hopt : t.options = l.options) {name : String} {w : Nat}
    (hmem : (key, Ticket.queued name w) ∈ loads) (hgot : t.result? w = some (.ok v)) :
    t.cached? key = some v := by
  by_cases hw : w ∈ l.queuedWaiters
  · obtain ⟨e, he, hwe⟩ := List.mem_flatMap.mp hw
    have hkey : e.key = key := (h.waits key name w hmem).2 e (List.mem_append_left _ he) hwe
    rw [← l.flatMap_entries_nextChunks] at he
    obtain ⟨c, hc, he⟩ := List.mem_flatMap.mp he
    obtain ⟨i, hi⟩ := List.mem_iff_getElem?.mp he
    obtain ⟨r, hr, hresult⟩ := hd.delivered c hc i e hi w hwe
    rw [hgot] at hresult
    obtain rfl := Option.some.inj hresult
    generalize hanswer : answers c.id = answer at hr
    cases hr with
    | @value values v hlen hv =>
      have hvalues : valuesFor? c.entries.length (answers c.id) = some values := by
        simp [hanswer, valuesFor?, hlen]
      have hat : c.keys[i]? = some key := Chunk.getElem?_keys_eq_some_iff.mpr ⟨e, hi, hkey⟩
      exact hd.cached?_of_call hopt h.caching hc hvalues hat hv
  · -- A waiter that was not queued had its result before.
    rw [hd.others w hw] at hgot
    exact hd.cached?_of_cached hopt h.caching h.uncached (h.given key _ hmem v hgot)

theorem Remembers.dispatch (h : l.Remembers dispatches loads)
    (horder : order.Perm l.nextChunks) (now : Nat) :
    (l.run (.start now :: chunkEnds answers order)).Remembers
      (dispatches ++ [l.nextChunks.map (Chunk.call answers)]) loads := by
  have hd : Dispatched l answers (l.run (.start now :: chunkEnds answers order)) :=
    h.wellFormed.dispatched horder now
  have hopt := options_run l (.start now :: chunkEnds answers order)
  have hstay : ∀ key v, l.cached? key = some v →
      (l.run (.start now :: chunkEnds answers order)).cached? key = some v :=
    fun key v hv => hd.cached?_of_cached hopt h.caching h.uncached hv
  exact {
    wellFormed := h.wellFormed.run _
    caching := by rw [hopt, h.caching]
    batching := by rw [hopt, h.batching]
    uncached := by
      intro e he
      rw [hd.queue] at he
      exact absurd he List.not_mem_nil
    distinct := by
      intro calls hcalls
      rcases List.mem_append.mp hcalls with hcalls | hcalls
      · exact h.distinct calls hcalls
      · rw [List.mem_singleton.mp hcalls, List.flatMap_map]
        exact h.wellFormed.nodup_keys h.caching
    -- What was in the cache stays there, for the dispatch asks for nothing that is.
    brought := by
      intro b hb values hvalues i key v hkey hv
      rw [List.flatten_append, List.flatten_singleton] at hb
      rcases List.mem_append.mp hb with hb | hb
      · exact hstay key v (h.brought b hb values hvalues i key v hkey hv)
      · obtain ⟨c, hc, rfl⟩ := mem_calls hb
        rw [Chunk.values?_call] at hvalues
        exact hd.cached?_of_call hopt h.caching hc hvalues hkey hv
    once := h.once_dispatch
    waits := by
      intro key name w hmem
      obtain ⟨hw, hwait⟩ := h.waits key name w hmem
      exact ⟨Nat.lt_of_lt_of_le hw (waiterCount_le_run _ _), hwait.run hw _⟩
    given := by
      intro key ticket hmem v hgot
      cases ticket with
      | answered value => exact hstay key v (h.given key _ hmem v hgot)
      | queued name w => exact h.given_dispatch hd hopt hmem hgot
      | direct name k => cases hgot }

end Dispatch

theorem SerialHistory.remembers {l₀ : Loader} (h : SerialHistory l₀ l dispatches loads)
    (h₀ : l₀.Remembers [] []) : l.Remembers dispatches loads := by
  induction h with
  | start => exact h₀
  | load _ key ih => exact ih.load key
  | dispatch _ answers horder now ih => exact ih.dispatch horder now

/-- A key is fetched once: no key occurs twice in a dispatch, a key for which a call succeeded is in
no later call, and every load of it that succeeds, before the call or after it, gets the value that
the call brought. -/
theorem fetched_once {name : String} {options : LoaderOptions} {created : Nat}
    (hc : options.caching = true) (hb : options.batching = true)
    (h : SerialHistory (fresh name options created) l dispatches loads) :
    (∀ calls ∈ dispatches, (calls.flatMap (·.keys)).Nodup) ∧
      (dispatches.flatten.Pairwise fun b d =>
        b.values?.isSome → ∀ key ∈ b.keys, key ∉ d.keys) ∧
      ∀ b ∈ dispatches.flatten, ∀ values, b.values? = some values →
        ∀ (i : Nat) key v, b.keys[i]? = some key → values[i]? = some v →
          ∀ ticket, (key, ticket) ∈ loads → ∀ u, l.got? ticket = some (.ok u) → u = v := by
  have hr := h.remembers (remembers_fresh hc hb)
  refine ⟨hr.distinct, hr.once, ?_⟩
  intro b hin values hvalues i key v hkey hv ticket hmem u hgot
  have hbrought := hr.brought b hin values hvalues i key v hkey hv
  rw [hr.given key ticket hmem u hgot] at hbrought
  exact Option.some.inj hbrought

theorem fetched_once_after_failure :
    let answers : Nat → Except HandlerError (List Json) := fun id =>
      if id = 0 then .error (.ofMessage "down") else .ok [.int id]
    let l₁ := (fresh "ids" { maxBatchSize := some 1 }).run [.load (.int 1), .load (.int 2)]
    let l₂ := l₁.run (.start :: chunkEnds answers l₁.nextChunks)
    let l₃ := (l₂.load (.int 1)).1
    let l₄ := l₃.run (.start :: chunkEnds answers l₃.nextChunks)
    let dispatches : List (List BatchCall) :=
      [[⟨[.int 1], .error (.ofMessage "down")⟩, ⟨[.int 2], .ok [.int 1]⟩],
        [⟨[.int 1], .ok [.int 2]⟩]]
    SerialHistory (fresh "ids" { maxBatchSize := some 1 }) l₄ dispatches
        [(.int 1, .queued "ids" 0), (.int 2, .queued "ids" 1), (.int 1, .queued "ids" 2)] ∧
      dispatches.flatten.Pairwise fun b d =>
        b.values?.isSome → ∀ key ∈ b.keys, key ∉ d.keys := by
  intro answers l₁ l₂ l₃ l₄ dispatches
  have h : SerialHistory (fresh "ids" { maxBatchSize := some 1 }) l₄ dispatches
      [(.int 1, .queued "ids" 0), (.int 2, .queued "ids" 1), (.int 1, .queued "ids" 2)] :=
    ((((SerialHistory.start.load (.int 1)).load (.int 2)).dispatch answers (.refl _) 0).load
      (.int 1)).dispatch answers (.refl _) 0
  exact ⟨h, (fetched_once rfl rfl h).2.1⟩

end Loader

section Sessions

variable {name : String} {batch : BatchLoader} {s : Session} {l₀ l : Loader}
  {call : Session.Caller} {c : Client} {dispatches : List (List BatchCall)}
  {loads : List (Json × Ticket)}

theorem Session.serialHistory_loadMany (keys : List Json) (hs : s.Runs name batch l)
    (h : l₀.SerialHistory l dispatches loads) :
    ∃ t, (s.loadMany name keys).1.Runs name batch t ∧
      (s.loadMany name keys).2.length = keys.length ∧
      l₀.SerialHistory t dispatches (loads ++ keys.zip (s.loadMany name keys).2) := by
  induction keys generalizing s l loads with
  | nil => exact ⟨l, hs, rfl, by simpa using h⟩
  | cons key rest ih =>
    have hname : (l.load key).1.name = name := (l.effect_load key).name_eq.trans hs.name_eq
    obtain ⟨t, ht, hlen, hhistory⟩ := ih (hs.update_self hname) (h.load key)
    simp only [loadMany, load_eq hs, Option.toList_some, List.singleton_append]
    exact ⟨t, ht, by simp [hlen], by simpa using hhistory⟩

theorem Session.serialHistory_dispatchBy (hcall : Quiet name batch call)
    (hs : s.Runs name batch l) (h : l₀.SerialHistory l dispatches loads) :
    ∃ t answers, AnswersBy call name batch answers l.nextChunks ∧
      (dispatchBy call s name).1.Runs name batch t ∧
      l₀.SerialHistory t (dispatches ++ [l.nextChunks.map (Chunk.call answers)]) loads := by
  obtain ⟨answers, hby, hruns⟩ := runs_dispatchBy hcall hs
  exact ⟨_, answers, hby, hruns, h.dispatch answers (.refl _) s.now⟩

def LoaderCall.fetches : LoaderCall → Bool
  | .load _ => true
  | .loadMany _ => true
  | .dispatch => true
  | _ => false

theorem Client.serialHistory_perform
    (hb : ∀ environment keys, ∃ answer, batch.load environment keys = .done answer)
    (hs : c.session.Runs name batch l) (h : l₀.SerialHistory l dispatches loads) {a : LoaderCall}
    (ha : a.fetches = true) :
    ∃ t dispatches' loads', (c.perform name a).session.Runs name batch t ∧
      l₀.SerialHistory t dispatches' loads' ∧
      loads'.map (·.1) = loads.map (·.1) ++ a.asks.flatten := by
  cases a with
  | load key =>
    have hname : (l.load key).1.name = name := (l.effect_load key).name_eq.trans hs.name_eq
    simp only [perform, Session.load_eq hs]
    exact ⟨_, _, _, hs.update_self hname, h.load key, by simp [LoaderCall.asks]⟩
  | loadMany keys =>
    obtain ⟨t, ht, hlen, hhistory⟩ := Session.serialHistory_loadMany keys hs h
    refine ⟨t, _, _, ht, hhistory, ?_⟩
    rw [List.map_append, List.map_fst_zip (Nat.le_of_eq hlen.symm)]
    simp [LoaderCall.asks]
  | dispatch =>
    have hquiet : Session.Quiet name batch c.session.call := Session.quiet_callWithin hb _
    obtain ⟨t, answers, -, ht, hhistory⟩ := Session.serialHistory_dispatchBy hquiet hs h
    exact ⟨t, _, _, ht, hhistory, by simp [LoaderCall.asks]⟩
  | clear => cases ha
  | clearKey key => cases ha
  | await number => cases ha

/-- Whatever a client loads and dispatches, its loader goes through a history of loads of the same
keys in the same order. -/
theorem Client.serialHistory_performAll
    (hb : ∀ environment keys, ∃ answer, batch.load environment keys = .done answer)
    (hs : c.session.Runs name batch l) (h : l₀.SerialHistory l dispatches loads)
    {calls : List LoaderCall} (hcalls : ∀ a ∈ calls, a.fetches = true) :
    ∃ t dispatches' loads', (c.performAll name calls).session.Runs name batch t ∧
      l₀.SerialHistory t dispatches' loads' ∧
      loads'.map (·.1) = loads.map (·.1) ++ (calls.flatMap LoaderCall.asks).flatten := by
  induction calls generalizing c l dispatches loads with
  | nil => exact ⟨l, dispatches, loads, hs, h, by simp⟩
  | cons a rest ih =>
    obtain ⟨t, _, _, ht, hhistory, hkeys⟩ :=
      serialHistory_perform hb hs h (hcalls a List.mem_cons_self)
    obtain ⟨u, _, loads', hu, hlast, hrest⟩ :=
      ih ht hhistory fun b hb => hcalls b (List.mem_cons_of_mem a hb)
    refine ⟨u, _, loads', hu, hlast, ?_⟩
    rw [hrest, hkeys, List.flatMap_cons, List.flatten_append, List.append_assoc]

end Sessions

end SchemaAssembly
