import SchemaAssembly.Proofs.Loader.Computing

/-!
Where the values of loads after a clear come from. A chunk that is in flight while the cache is
cleared still enters its values when it ends; every other value comes from a call that started
after the clear.
-/

set_option autoImplicit false

namespace SchemaAssembly

theorem nodup_cacheAll {cache : Entries Json} {entries : List QueueEntry} {values : List Json}
    (h : (cache.map (·.1)).Nodup) : ((cacheAll cache entries values).map (·.1)).Nodup := by
  induction entries generalizing cache values with
  | nil => exact h
  | cons e rest ih =>
    cases values with
    | nil => exact h
    | cons v more => exact ih (Entries.nodup_keys_put h)

/-- Whether a step may enter a value that no chunk brought. -/
def LoaderStep.fills : LoaderStep → Bool
  | .prime _ _ => true
  | .completeDirect _ _ => true
  | _ => false

namespace Loader

variable {l t : Loader} {a : LoaderStep} {key : Json} {w : Nat} {r : Except LoaderError Json}

def Brings (c : Chunk) (values : List Json) (key value : Json) : Prop :=
  values.length = c.keys.length ∧ ∃ i : Nat, c.keys[i]? = some key ∧ values[i]? = some value

theorem mem_cache_complete {id : Nat} {answer : Except HandlerError (List Json)} {value : Json}
    (h : (key.text, value) ∈ (l.complete id answer).cache) :
    (key.text, value) ∈ l.cache ∨ ∃ c values, answer = .ok values ∧ c ∈ l.inFlight ∧ c.id = id ∧
      Brings c values key value := by
  cases hf : l.inFlight.find? fun c => c.id == id with
  | none =>
    rw [complete_missing hf] at h
    exact .inl h
  | some c =>
    simp only [complete_found hf, cacheAfter] at h
    cases hcheck : l.checkAnswer c.entries.length answer with
    | error e =>
      rw [hcheck] at h
      exact .inl h
    | ok values =>
      obtain ⟨rfl, hlen⟩ := checkAnswer_ok hcheck
      rw [hcheck] at h
      cases hc : l.options.caching with
      | false => exact .inl (by simpa [hc] using h)
      | true =>
        have hall : (key.text, value) ∈ cacheAll l.cache c.entries values := by simpa [hc] using h
        rcases mem_cacheAll hall with hold | ⟨i, e, v, he, hv, heq⟩
        · exact .inl hold
        · obtain ⟨htext, rfl⟩ := Prod.mk.inj heq
          have hkey : key = e.key := Json.text_injective htext
          have hid : c.id = id := by simpa using List.find?_some hf
          refine .inr ⟨c, values, rfl, List.mem_of_find?_eq_some hf, hid, ?_⟩
          exact ⟨by simpa [Chunk.keys] using hlen, i, by simp [Chunk.keys, he, hkey], hv⟩

/-- Apart from primed values and single calls, only chunks enter values. -/
theorem mem_cache_step {value : Json} (ha : a.fills = false)
    (h : (key.text, value) ∈ (l.step a).cache) :
    (key.text, value) ∈ l.cache ∨ ∃ id values c, a = .complete id (.ok values) ∧
      c ∈ l.inFlight ∧ c.id = id ∧ Brings c values key value := by
  cases a with
  | load k =>
    simp only [Loader.step, cache_load] at h
    exact .inl h
  | start => exact .inl h
  | complete id answer =>
    rcases mem_cache_complete h with h | ⟨c, values, rfl, hc, hid, hb⟩
    · exact .inl h
    · exact .inr ⟨id, values, c, rfl, hc, hid, hb⟩
  | startDirect => exact .inl h
  | completeDirect k answer => cases ha
  | prime k v => cases ha
  | clear => exact absurd h List.not_mem_nil
  | clearKey k => exact .inl (Entries.erase_subset _ _ h)

theorem mem_cache_run {value : Json} {steps : List LoaderStep}
    (hsteps : ∀ a ∈ steps, a.fills = false) (h : (key.text, value) ∈ (l.run steps).cache) :
    (key.text, value) ∈ l.cache ∨ ∃ earlier id values later c,
      steps = earlier ++ .complete id (.ok values) :: later ∧ c ∈ (l.run earlier).inFlight ∧
        c.id = id ∧ Brings c values key value := by
  induction steps generalizing l with
  | nil => exact .inl h
  | cons a rest ih =>
    rcases ih (fun b hb => hsteps b (List.mem_cons_of_mem a hb)) h with
      hstep | ⟨earlier, id, values, later, c, heq, hc, hid, hb⟩
    · rcases mem_cache_step (hsteps a List.mem_cons_self) hstep with
        hold | ⟨id, values, c, rfl, hc, hid, hb⟩
      · exact .inl hold
      · exact .inr ⟨[], id, values, rest, c, rfl, hc, hid, hb⟩
    · exact .inr ⟨a :: earlier, id, values, later, c, by rw [heq]; rfl, hc, hid, hb⟩

theorem nodup_cacheAfter {entries : List QueueEntry} {answer : Except HandlerError (List Json)}
    (h : (l.cache.map (·.1)).Nodup) : ((l.cacheAfter entries answer).map (·.1)).Nodup := by
  unfold cacheAfter
  split
  · split
    · exact nodup_cacheAll h
    · exact h
  · exact h

theorem nodup_cache_step (h : (l.cache.map (·.1)).Nodup) (a : LoaderStep) :
    ((l.step a).cache.map (·.1)).Nodup := by
  cases a with
  | load k => simpa [Loader.step] using h
  | start => exact h
  | complete id answer =>
    cases hf : l.inFlight.find? fun c => c.id == id with
    | none => simpa [Loader.step, complete_missing hf] using h
    | some c =>
      simp only [Loader.step, complete_found hf]
      exact nodup_cacheAfter h
  | startDirect => exact h
  | completeDirect k answer =>
    by_cases hk : k.text ∈ l.directs
    · simp only [Loader.step, completeDirect_of_mem hk]
      exact nodup_cacheAfter h
    · simpa [Loader.step, completeDirect_of_notMem hk] using h
  | prime k v =>
    simp only [Loader.step, prime]
    split
    · exact Entries.nodup_keys_put h
    · exact h
  | clear => exact List.nodup_nil
  | clearKey k => exact Entries.nodup_keys_erase h

theorem notMem_cache_cleared {clearing : LoaderStep} {value : Json}
    (h : (l.cache.map (·.1)).Nodup) (hclear : clearing = .clear ∨ clearing = .clearKey key) :
    (key.text, value) ∉ (l.step clearing).cache := by
  rcases hclear with rfl | rfl
  · exact List.not_mem_nil
  · exact Entries.notMem_erase h

theorem Effect.chunkCount_le (h : Effect l a t) : l.chunkCount ≤ t.chunkCount := by
  cases h with
  | keep => exact Nat.le_refl _
  | join => exact Nat.le_refl _
  | enqueue => exact Nat.le_refl _
  | start => exact Nat.le_add_right _ _
  | settle => exact Nat.le_refl _

theorem Effect.mem_inFlight (h : Effect l a t) {c : Chunk} (hc : c ∈ t.inFlight) :
    c ∈ l.inFlight ∨ c ∈ l.nextChunks := by
  cases h with
  | keep => exact .inl hc
  | join => exact .inl hc
  | enqueue => exact .inl hc
  | start => exact List.mem_append.mp hc
  | settle => exact .inl (List.mem_filter.mp hc).1

theorem mem_inFlight_run {steps : List LoaderStep} {c : Chunk}
    (hc : c ∈ (l.run steps).inFlight) : c ∈ l.inFlight ∨ l.chunkCount ≤ c.id := by
  refine (run_induction (P := fun s => l.chunkCount ≤ s.chunkCount ∧
    ∀ c ∈ s.inFlight, c ∈ l.inFlight ∨ l.chunkCount ≤ c.id) ?_ steps
      ⟨Nat.le_refl _, fun c hc => .inl hc⟩).2 c hc
  rintro s a ⟨hle, hs⟩
  have heff := effect_step s a
  refine ⟨Nat.le_trans hle heff.chunkCount_le, ?_⟩
  intro c hc
  rcases heff.mem_inFlight hc with hc | hc
  · exact hs c hc
  · exact .inr (Nat.le_trans hle (id_nextChunks hc).1)

theorem chunkCount_le_run (l : Loader) (steps : List LoaderStep) :
    l.chunkCount ≤ (l.run steps).chunkCount :=
  run_induction (P := fun s => l.chunkCount ≤ s.chunkCount)
    (fun s a hs => Nat.le_trans hs (effect_step s a).chunkCount_le) steps (Nat.le_refl _)

theorem nodup_cache_run (name : String) (options : LoaderOptions) (created : Nat)
    (steps : List LoaderStep) :
    (((fresh name options created).run steps).cache.map (·.1)).Nodup := by
  have hfresh : ((fresh name options created).cache.map (·.1)).Nodup := List.nodup_nil
  exact run_induction (P := fun s => (s.cache.map (·.1)).Nodup)
    (fun _ a hs => nodup_cache_step hs a) steps hfresh

theorem mem_cache_of_cached {value : Json} (h : l.cached? key = some value) :
    (key.text, value) ∈ l.cache := by
  unfold cached? at h
  split at h
  · exact Entries.mem_of_get? h
  · cases h

@[simp] theorem inFlight_load (l : Loader) (key : Json) :
    (l.load key).1.inFlight = l.inFlight := by
  have heff := effect_load l key
  generalize (l.load key).1 = t at heff ⊢
  cases heff <;> rfl

/-- The call that settles a waiter started after the load of the waiter. -/
theorem WellFormed.settled_late (h : l.WellFormed) (hb : l.options.batching = true)
    (hmiss : l.cached? key = none) {after : List LoaderStep}
    (hr : (l.waiterCount, r) ∈ ((l.load key).1.run after).settled) :
    ∃ earlier id answer later, after = earlier ++ .complete id answer :: later ∧
      ((l.load key).1.run earlier).Delivers id answer l.waiterCount key r ∧
        l.chunkCount ≤ id := by
  have hnew := h.waiterCount_notMem
  obtain ⟨-, -, hcount, hsettled⟩ := h.queued_of_miss hb hmiss
  have hwait := h.waitsFor_load key
  rcases hwait.delivered (by omega) after hr with hold | ⟨earlier, id, answer, later, heq, hd⟩
  · rw [hsettled] at hold
    exact absurd (mem_waiters_of_settled hold) hnew
  · refine ⟨earlier, id, answer, later, heq, hd, ?_⟩
    obtain ⟨c, i, e, hc, hid, he, hw, -⟩ := hd
    rcases mem_inFlight_run hc with hold | hlate
    · rw [inFlight_load] at hold
      exact absurd (mem_waiters_of_open (mem_open_of_chunk hold (List.mem_of_getElem? he)) hw) hnew
    · rw [← hid]
      exact Nat.le_trans (effect_load l key).chunkCount_le hlate

/-- A value in flight during a clear comes back into the cache. -/
theorem value_in_flight_survives_clear :
    let s := (fresh "ids" {}).run [.load (.int 1), .start]
    let t := (s.step .clear).run [.complete 0 (.ok [.int 7])]
    s.inFlight.map (·.id) = [0] ∧ s.chunkCount = 1 ∧
      (t.load (.int 1)).2 = .answered (.int 7) := by
  exact ⟨rfl, rfl, rfl⟩

/-- After a clear, a load that misses the cache is settled by a call that started after the clear.
A load that hits it gives a value that a chunk brought after the clear, and the call for the chunk
started after the clear or was in flight at it. -/
theorem fresh_after_clear (name : String) {options : LoaderOptions} (created : Nat)
    (hb : options.batching = true) (before between : List LoaderStep)
    (hplain : ∀ a ∈ between, a.fills = false) (key : Json) {clearing : LoaderStep}
    (hclear : clearing = .clear ∨ clearing = .clearKey key) :
    let s := (fresh name options created).run before
    let t := (s.step clearing).run between
    (∀ value, (t.load key).2 = .answered value →
      ∃ earlier id values later c, between = earlier ++ .complete id (.ok values) :: later ∧
        c ∈ ((s.step clearing).run earlier).inFlight ∧ c.id = id ∧ Brings c values key value ∧
          (c ∈ s.inFlight ∨ s.chunkCount ≤ id)) ∧
      ∀ waiter, (t.load key).2 = .queued name waiter → ∀ after r,
        (waiter, r) ∈ ((t.load key).1.run after).settled →
          ∃ earlier id answer later, after = earlier ++ .complete id answer :: later ∧
            ((t.load key).1.run earlier).Delivers id answer waiter key r ∧ s.chunkCount ≤ id := by
  intro s t
  have hfresh := wellFormed_fresh name options created
  have hwf : t.WellFormed := ((hfresh.run before).step clearing).run between
  have hopt : t.options = options := by
    simp only [t, s, options_run, (effect_step _ clearing).options_eq, fresh]
  have hbt : t.options.batching = true := by rw [hopt, hb]
  constructor
  · intro value hticket
    cases hcached : t.cached? key with
    | none => simp [(hwf.queued_of_miss hbt hcached).1] at hticket
    | some v =>
      rw [load_hit hcached] at hticket
      cases hticket
      have hcleared : (key.text, value) ∉ (s.step clearing).cache :=
        notMem_cache_cleared (nodup_cache_run name options created before) hclear
      rcases mem_cache_run hplain (mem_cache_of_cached hcached) with
        hold | ⟨earlier, id, values, later, c, heq, hin, hid, hbrings⟩
      · exact absurd hold hcleared
      · refine ⟨earlier, id, values, later, c, heq, hin, hid, hbrings, ?_⟩
        rw [← hid]
        rcases hclear with rfl | rfl
        · exact mem_inFlight_run (l := s.step .clear) hin
        · exact mem_inFlight_run (l := s.step (.clearKey key)) hin
  · intro waiter hticket after r hr
    cases hcached : t.cached? key with
    | some v =>
      rw [load_hit hcached] at hticket
      cases hticket
    | none =>
      rw [(hwf.queued_of_miss hbt hcached).1] at hticket
      obtain ⟨-, rfl⟩ := Ticket.queued.inj hticket
      obtain ⟨earlier, id, answer, later, heq, hd, hle⟩ := hwf.settled_late hbt hcached hr
      refine ⟨earlier, id, answer, later, heq, hd, Nat.le_trans ?_ hle⟩
      exact Nat.le_trans (effect_step s clearing).chunkCount_le (chunkCount_le_run _ between)

theorem fresh_after_clear_of_idle :
    let s := (fresh "ids" {}).run [.load (.int 1), .start, .complete 0 (.ok [.int 7])]
    let t := (s.step .clear).run [.load (.int 1), .start, .complete 1 (.ok [.int 8])]
    (t.load (.int 1)).2 = .answered (.int 8) ∧ ∃ earlier id values later c,
      [.load (.int 1), .start, .complete 1 (.ok [.int 8])] =
          earlier ++ .complete id (.ok values) :: later ∧
        c ∈ ((s.step .clear).run earlier).inFlight ∧ c.id = id ∧
          Brings c values (.int 1) (.int 8) ∧ (c ∈ s.inFlight ∨ s.chunkCount ≤ id) :=
  ⟨rfl, (fresh_after_clear "ids" 0 rfl [.load (.int 1), .start, .complete 0 (.ok [.int 7])]
    [.load (.int 1), .start, .complete 1 (.ok [.int 8])] (by decide) (.int 1)
    (.inl rfl)).1 (.int 8) rfl⟩

end Loader

end SchemaAssembly
