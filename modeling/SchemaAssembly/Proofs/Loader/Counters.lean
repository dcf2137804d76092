import SchemaAssembly.Proofs.Loader.Fetching

/-!
The counters of a batching loader. Whatever its client does, every load is a cache hit, settled or
queued, the keys handed to the batch function are the keys that the dispatches gave, and a key
stands for at least one load.
-/

set_option autoImplicit false

namespace SchemaAssembly

/-- How many parts so many keys make: their number divided by the limit and rounded up, or one part
without a limit. -/
def partCount (limit : Option Nat) (keys : Nat) : Nat :=
  match limit with
  | none => if keys = 0 then 0 else 1
  | some size => (keys + size - 1) / size

theorem partCount_of_le {size keys : Nat} (hk : keys ≠ 0) (hs : keys ≤ size) :
    partCount (some size) keys = 1 := by
  rw [partCount]
  exact Nat.div_eq_of_lt_le (by omega) (by omega)

theorem partCount_of_lt {size keys : Nat} (h0 : size ≠ 0) (hlt : size < keys) :
    partCount (some size) keys = partCount (some size) (keys - size) + 1 := by
  have hrest : keys + size - 1 = (keys - size + size - 1) + size := by omega
  rw [partCount, partCount, hrest, Nat.add_div_right _ (Nat.pos_of_ne_zero h0)]

section Parts

variable {α : Type}

theorem length_piecesFrom {size : Nat} (hs : size ≠ 0) (fuel : Nat) {xs : List α} (hne : xs ≠ [])
    (hfuel : xs.length ≤ fuel) :
    (piecesFrom size fuel xs).length = partCount (some size) xs.length := by
  induction fuel generalizing xs with
  | zero => exact absurd (List.length_eq_zero_iff.mp (by omega)) hne
  | succ fuel ih =>
    have hlen : xs.length ≠ 0 := fun h => hne (List.length_eq_zero_iff.mp h)
    by_cases hle : xs.length ≤ size
    · simp [piecesFrom, hle, partCount_of_le hlen hle]
    · have hrest : xs.drop size ≠ [] := by
        rw [ne_eq, List.drop_eq_nil_iff]
        omega
      have hdrop : (xs.drop size).length ≤ fuel := by
        rw [List.length_drop]
        omega
      rw [partCount_of_lt hs (by omega), ← List.length_drop, ← ih hrest hdrop]
      simp [piecesFrom, hle]

theorem length_pieces {limit : Option Nat} (hl : limit ≠ some 0) (xs : List α) :
    (pieces limit xs).length = partCount limit xs.length := by
  cases limit with
  | none =>
    by_cases hne : xs = []
    · simp [hne, partCount]
    · simp [Loader.pieces_unlimited hne, partCount, hne]
  | some size =>
    have hs : size ≠ 0 := fun h => hl (congrArg some h)
    by_cases hne : xs = []
    · simp only [hne, Loader.pieces_nil, List.length_nil, partCount]
      exact (Nat.div_eq_of_lt (by omega)).symm
    · exact length_piecesFrom hs xs.length hne (Nat.le_refl _)

end Parts

/-- A dispatch: the number that it gave, and its calls of the batch function. -/
structure DispatchRecord where
  result : Nat
  calls : List BatchCall

def BatchCall.failed (b : BatchCall) : Bool := b.values?.isNone

namespace Loader

/-- What a client can do with a loader, each dispatch with its record. Several keys are loaded one
after the other; a dispatch ends before the client goes on, with any answers to its calls, which
end in any order. -/
inductive UseHistory (l₀ : Loader) : Loader → List DispatchRecord → Prop where
  | start : UseHistory l₀ l₀ []
  | loads {l : Loader} {dispatches : List DispatchRecord} (h : UseHistory l₀ l dispatches)
      (keys : List Json) : UseHistory l₀ (l.run (keys.map .load)) dispatches
  | prime {l : Loader} {dispatches : List DispatchRecord} (h : UseHistory l₀ l dispatches)
      (key value : Json) : UseHistory l₀ (l.prime key value) dispatches
  | clearKey {l : Loader} {dispatches : List DispatchRecord} (h : UseHistory l₀ l dispatches)
      (key : Json) : UseHistory l₀ (l.clearKey key) dispatches
  | clear {l : Loader} {dispatches : List DispatchRecord} (h : UseHistory l₀ l dispatches) :
      UseHistory l₀ l.clear dispatches
  | dispatch {l : Loader} {dispatches : List DispatchRecord} (h : UseHistory l₀ l dispatches)
      (answers : Nat → Except HandlerError (List Json)) {order : List Chunk}
      (horder : order.Perm l.nextChunks) (now : Nat) :
      UseHistory l₀ (l.run (.start now :: chunkEnds answers order))
        (dispatches ++ [⟨l.depth, l.nextChunks.map (Chunk.call answers)⟩])

variable {l : Loader} {dispatches : List DispatchRecord}
  {answers : Nat → Except HandlerError (List Json)} {order : List Chunk}

/-- The counters against the waiters, the queue and the dispatches so far. -/
structure Balanced (l : Loader) (dispatches : List DispatchRecord) : Prop where
  wellFormed : l.WellFormed
  batching : l.options.batching = true
  idle : l.inFlight = []
  loads : l.statistics.loads = l.statistics.cacheHits + l.waiterCount
  batchLoads : l.statistics.batchLoads = (dispatches.map (·.result)).sum
  batches : l.statistics.batches =
    (dispatches.map fun d => partCount l.options.maxBatchSize d.result).sum
  errors : l.statistics.errors = (dispatches.flatMap (·.calls)).countP BatchCall.failed
  /-- A queued key, and a key of a call, has a waiter of its own. -/
  keys : l.statistics.batchLoads + l.depth ≤ l.waiterCount
  uncached : l.options.caching = false → l.statistics.batchLoads + l.depth = l.waiterCount

theorem balanced_fresh {name : String} {options : LoaderOptions} {created : Nat}
    (hb : options.batching = true) : (fresh name options created).Balanced [] where
  wellFormed := wellFormed_fresh name options created
  batching := hb
  idle := rfl
  loads := rfl
  batchLoads := rfl
  batches := rfl
  errors := rfl
  keys := Nat.le_refl _
  uncached _ := rfl

theorem Balanced.withCache (h : l.Balanced dispatches) (cache : Entries Json) :
    ({ l with cache := cache } : Loader).Balanced dispatches :=
  ⟨h.wellFormed.keep cache l.statistics l.directs, h.batching, h.idle, h.loads, h.batchLoads, h.batches,
    h.errors, h.keys, h.uncached⟩

theorem Balanced.prime (h : l.Balanced dispatches) (key value : Json) :
    (l.prime key value).Balanced dispatches := by
  rw [Loader.prime]
  split
  · exact h.withCache _
  · exact h

theorem slot?_of_uncached (hc : l.options.caching = false) (key : Json) : l.slot? key = none := by
  simp [slot?, hc]

/-- A hit counts on both sides; any other load gets a waiter, and its key a place in the queue
unless it stands there already. -/
theorem Balanced.load (h : l.Balanced dispatches) (key : Json) :
    (l.load key).1.Balanced dispatches := by
  have hwf : (l.load key).1.WellFormed := h.wellFormed.step (.load key)
  have hloads := h.loads
  have hkeys := h.keys
  cases hmiss : l.cached? key with
  | some value =>
    rw [load_hit hmiss] at hwf ⊢
    exact ⟨hwf, h.batching, h.idle, by simp only; omega, h.batchLoads, h.batches, h.errors,
      h.keys, h.uncached⟩
  | none =>
    cases hs : l.slot? key with
    | some i =>
      rw [load_shared hmiss h.batching hs, countLoad] at hwf ⊢
      refine ⟨hwf, h.batching, h.idle, by simp only; omega, h.batchLoads, h.batches, h.errors,
        ?_, ?_⟩
      · simp only [depth, List.length_modify] at hkeys ⊢
        omega
      · -- Without caching no entry is shared.
        intro hc
        have hnone := slot?_of_uncached (l := l) hc key
        rw [hs] at hnone
        cases hnone
    | none =>
      rw [load_queued hmiss h.batching hs, countLoad] at hwf ⊢
      refine ⟨hwf, h.batching, h.idle, by simp only; omega, h.batchLoads, h.batches, h.errors,
        ?_, ?_⟩
      · simp only [depth, List.length_append, List.length_singleton] at hkeys ⊢
        omega
      · intro hc
        have heq := h.uncached hc
        simp only [depth, List.length_append, List.length_singleton] at heq ⊢
        omega

theorem Balanced.loadAll (h : l.Balanced dispatches) (keys : List Json) :
    (l.run (keys.map .load)).Balanced dispatches := by
  induction keys generalizing l with
  | nil => exact h
  | cons key rest ih => exact ih (h.load key)

theorem length_nextChunks (l : Loader) :
    l.nextChunks.length = partCount l.options.maxBatchSize l.depth := by
  rw [nextChunks, length_numberChunks, length_pieces l.options.maxBatchSize_ne_zero, depth]

theorem countP_failed (answers : Nat → Except HandlerError (List Json)) (chunks : List Chunk) :
    (chunks.map (Chunk.call answers)).countP BatchCall.failed = failures answers chunks := by
  rw [List.countP_map, failures]
  refine List.countP_congr fun c _ => ?_
  rw [Function.comp_apply, BatchCall.failed, Chunk.values?_call]

theorem Balanced.dispatch (h : l.Balanced dispatches) (horder : order.Perm l.nextChunks)
    (now : Nat) :
    (l.run (.start now :: chunkEnds answers order)).Balanced
      (dispatches ++ [⟨l.depth, l.nextChunks.map (Chunk.call answers)⟩]) := by
  have hwf := h.wellFormed.run (.start now :: chunkEnds answers order)
  have hd : Dispatched l answers (l.run (.start now :: chunkEnds answers order)) :=
    h.wellFormed.dispatched horder now
  have hopt := options_run l (.start now :: chunkEnds answers order)
  have hcount : (l.run (.start now :: chunkEnds answers order)).waiterCount = l.waiterCount := by
    rw [h.wellFormed.run_start_chunkEnds horder now]
    simp only [step, startDispatch_eq, afterEnds, countCalls]
  generalize l.run (.start now :: chunkEnds answers order) = t at hwf hd hopt hcount ⊢
  have hdepth : t.depth = 0 := by rw [depth, hd.queue, List.length_nil]
  refine ⟨hwf, hopt ▸ h.batching, hd.inFlight.trans h.idle, ?_, ?_, ?_, ?_, ?_, ?_⟩
  · rw [hcount, hd.counted]
    exact h.loads
  · simp [hd.counted, h.batchLoads, depth]
  · simp [hd.counted, h.batches, hopt, length_nextChunks]
  · rw [List.flatMap_append, List.flatMap_singleton, List.countP_append, countP_failed,
      ← h.errors, hd.counted]
  · rw [hcount, hdepth, hd.counted]
    exact h.keys
  · intro hc
    rw [hcount, hdepth, hd.counted]
    exact h.uncached (hopt ▸ hc)

theorem UseHistory.balanced {l₀ : Loader} (h : UseHistory l₀ l dispatches)
    (h₀ : l₀.Balanced []) : l.Balanced dispatches := by
  induction h with
  | start => exact h₀
  | loads _ keys ih => exact ih.loadAll keys
  | prime _ key value ih => exact ih.prime key value
  | clearKey _ key ih => exact ih.withCache _
  | clear _ ih => exact ih.withCache _
  | dispatch _ answers horder now ih => exact ih.dispatch horder now

theorem UseHistory.options_eq {l₀ : Loader} (h : UseHistory l₀ l dispatches) :
    l.options = l₀.options := by
  induction h with
  | start => rfl
  | loads _ keys ih => rw [options_run, ih]
  | prime _ key value ih => exact (effect_step _ (.prime key value)).options_eq.trans ih
  | clearKey _ key ih => exact ih
  | clear _ ih => exact ih
  | dispatch _ answers horder now ih => rw [options_run, ih]

theorem Balanced.waiterCount_eq (h : l.Balanced dispatches) :
    l.waiterCount = l.settledWaiters.length + l.queuedWaiters.length := by
  have hlen := h.wellFormed.waiters.length_eq
  rw [List.length_range] at hlen
  rw [← hlen, waiters, inFlightWaiters, h.idle]
  simp [Nat.add_comm]

/-- The counters balance over every history of a batching loader, and a dispatch of a session goes
on with the history of its loader and gives the number that is recorded. -/
theorem counters_balance {name : String} {options : LoaderOptions} {created : Nat}
    (hb : options.batching = true) (h : UseHistory (fresh name options created) l dispatches) :
    (l.statistics.loads =
        l.statistics.cacheHits + l.settledWaiters.length + l.queuedWaiters.length ∧
      l.statistics.batchLoads = (dispatches.map (·.result)).sum ∧
      l.statistics.batches =
        (dispatches.map fun d => partCount options.maxBatchSize d.result).sum ∧
      l.statistics.errors = (dispatches.flatMap (·.calls)).countP BatchCall.failed ∧
      l.statistics.batchLoads + l.depth ≤ l.statistics.loads - l.statistics.cacheHits ∧
      (options.caching = false →
        l.statistics.batchLoads + l.depth = l.statistics.loads - l.statistics.cacheHits)) ∧
    ∀ (s : Session) (batch : BatchLoader) (call : Session.Caller), s.Runs name batch l →
      Session.Quiet name batch call → ∃ d t,
        (Session.dispatchBy call s name).2 = some d.result ∧
          (Session.dispatchBy call s name).1.Runs name batch t ∧
          UseHistory (fresh name options created) t (dispatches ++ [d]) := by
  have hl := h.balanced (balanced_fresh hb)
  have hopt : l.options = options := h.options_eq
  have hloads := hl.loads
  have hcount := hl.waiterCount_eq
  have hkeys := hl.keys
  refine ⟨⟨by omega, hl.batchLoads, hopt ▸ hl.batches, hl.errors, by omega, ?_⟩, ?_⟩
  · intro hc
    have heq := hl.uncached (hopt ▸ hc)
    omega
  · intro s batch call hruns hquiet
    obtain ⟨answers, -, ht⟩ := Session.runs_dispatchBy hquiet hruns
    refine ⟨_, _, ?_, ht, h.dispatch answers (.refl _) s.now⟩
    rw [Session.dispatchBy_eq call hruns]
    rfl

theorem counters_balance_in_pairs :
    let answers : Nat → Except HandlerError (List Json) := fun id =>
      if id = 0 then .ok [.int 10, .int 20] else .error (.ofMessage "down")
    let l₁ := (fresh "ids" { maxBatchSize := some 2 }).run
      [.load (.int 1), .load (.int 2), .load (.int 3)]
    let l₂ := (l₁.run (.start :: chunkEnds answers l₁.nextChunks)).run
      [.load (.int 1), .load (.int 3), .load (.int 3)]
    l₂.statistics = ⟨6, 2, 3, 1, 1⟩ ∧ l₂.settledWaiters = [0, 1, 2] ∧
      l₂.queuedWaiters = [3, 4] ∧
      l₂.statistics.loads =
        l₂.statistics.cacheHits + l₂.settledWaiters.length + l₂.queuedWaiters.length := by
  intro answers l₁ l₂
  have h : UseHistory (fresh "ids" { maxBatchSize := some 2 }) l₂
      [⟨3, [⟨[.int 1, .int 2], .ok [.int 10, .int 20]⟩, ⟨[.int 3], .error (.ofMessage "down")⟩]⟩] :=
    ((UseHistory.start.loads [.int 1, .int 2, .int 3]).dispatch answers (.refl _) 0).loads
      [.int 1, .int 3, .int 3]
  exact ⟨by decide +kernel, by decide +kernel, by decide +kernel, (counters_balance rfl h).1.1⟩

end Loader

end SchemaAssembly
