import SchemaAssembly.Proofs.Loader.Chunks
import SchemaAssembly.Proofs.Loader.Freshness

/-!
Different keys stay apart. The text of a key determines the key, so the loads that wait in one entry
asked for one value, and what is cached answers only the loads of the key that it was entered for.
-/

set_option autoImplicit false

namespace SchemaAssembly

namespace Loader

variable {l : Loader} {a : LoaderStep} {steps : List LoaderStep} {key value : Json}

/-- A load of the key got the ticket, somewhere in the steps. -/
def Loaded (l : Loader) (steps : List LoaderStep) (key : Json) (ticket : Ticket) : Prop :=
  ∃ earlier later, steps = earlier ++ .load key :: later ∧ ((l.run earlier).load key).2 = ticket

/-- The step enters the value for the key. A chunk enters it for the loads that wait for it. -/
inductive Enters (l : Loader) (key value : Json) : LoaderStep → List Nat → Prop where
  | chunk {c : Chunk} {values : List Json} {i : Nat} {e : QueueEntry} (hc : c ∈ l.inFlight)
      (hlen : values.length = c.entries.length) (he : c.entries[i]? = some e) (hkey : e.key = key)
      (hv : values[i]? = some value) : Enters l key value (.complete c.id (.ok values)) e.waiters
  | alone (hd : key.text ∈ l.directs) : Enters l key value (.completeDirect key (.ok [value])) []
  | primed : Enters l key value (.prime key value) []

section Origin

theorem cached?_of_answered (h : (l.load key).2 = .answered value) :
    l.cached? key = some value := by
  cases hc : l.cached? key with
  | some v =>
    rw [load_hit hc] at h
    exact congrArg some (Ticket.answered.inj h)
  | none =>
    cases hb : l.options.batching with
    | false =>
      rw [load_direct hc hb] at h
      cases h
    | true =>
      rw [load_batched hc hb] at h
      cases h

theorem enters_of_brings {c : Chunk} {values : List Json} (hc : c ∈ l.inFlight)
    (h : Brings c values key value) :
    ∃ waiters, l.Enters key value (.complete c.id (.ok values)) waiters := by
  obtain ⟨hlen, i, hi, hv⟩ := h
  rw [Chunk.length_keys] at hlen
  obtain ⟨e, he, hkey⟩ := Chunk.getElem?_keys_eq_some_iff.mp hi
  exact ⟨e.waiters, .chunk hc hlen he hkey hv⟩

theorem mem_cache_completeDirect {k : Json} {answer : Except HandlerError (List Json)}
    (h : (key.text, value) ∈ (l.completeDirect k answer).cache) :
    (key.text, value) ∈ l.cache ∨ k = key ∧ answer = .ok [value] ∧ k.text ∈ l.directs := by
  by_cases hk : k.text ∈ l.directs
  · simp only [completeDirect_of_mem hk, cacheAfter, List.length_singleton] at h
    cases hcheck : l.checkAnswer 1 answer with
    | error e =>
      rw [hcheck] at h
      exact .inl h
    | ok values =>
      obtain ⟨rfl, hlen⟩ := checkAnswer_ok hcheck
      obtain ⟨u, rfl⟩ := List.length_eq_one_iff.mp hlen
      rw [hcheck] at h
      cases hc : l.options.caching with
      | false => exact .inl (by simpa [hc] using h)
      | true =>
        have hput : (key.text, value) ∈ l.cache.put k.text u := by simpa [hc, cacheAll] using h
        rcases Entries.mem_put hput with heq | hold
        · obtain ⟨htext, rfl⟩ := Prod.mk.inj heq
          exact .inr ⟨(Json.text_injective htext).symm, rfl, hk⟩
        · exact .inl hold
  · rw [completeDirect_of_notMem hk] at h
    exact .inl h

theorem mem_cache_prime {k v : Json} (h : (key.text, value) ∈ (l.prime k v).cache) :
    (key.text, value) ∈ l.cache ∨ k = key ∧ v = value := by
  unfold prime at h
  split at h
  · rcases Entries.mem_put h with heq | hold
    · obtain ⟨htext, rfl⟩ := Prod.mk.inj heq
      exact .inr ⟨(Json.text_injective htext).symm, rfl⟩
    · exact .inl hold
  · exact .inl h

theorem mem_cache_or_enters (h : (key.text, value) ∈ (l.step a).cache) :
    (key.text, value) ∈ l.cache ∨ ∃ waiters, l.Enters key value a waiters := by
  cases hf : a.fills with
  | false =>
    rcases mem_cache_step hf h with hold | ⟨id, values, c, rfl, hc, rfl, hbrings⟩
    · exact .inl hold
    · exact .inr (enters_of_brings hc hbrings)
  | true =>
    cases a with
    | prime k v =>
      rcases mem_cache_prime h with hold | ⟨rfl, rfl⟩
      · exact .inl hold
      · exact .inr ⟨[], .primed⟩
    | completeDirect k answer =>
      rcases mem_cache_completeDirect h with hold | ⟨rfl, rfl, hd⟩
      · exact .inl hold
      · exact .inr ⟨[], .alone hd⟩
    | load k => cases hf
    | start => cases hf
    | complete id answer => cases hf
    | startDirect => cases hf
    | clear => cases hf
    | clearKey k => cases hf

/-- What is cached was entered for the key and has been cached since. -/
theorem origin_of_cached {name : String} {options : LoaderOptions} {created : Nat}
    (h : ((fresh name options created).run steps).cached? key = some value) :
    ∃ earlier a later waiters, steps = earlier ++ a :: later ∧
      ((fresh name options created).run earlier).Enters key value a waiters ∧
        ∀ more, more <+: later →
          ((fresh name options created).run (earlier ++ a :: more)).cached? key = some value := by
  have hcaching : options.caching = true := by
    by_contra hc
    simp [cached?, fresh, hc] at h
  induction steps using List.reverseRecOn with
  | nil => simp [cached?, fresh, Entries.get?] at h
  | append_singleton before a ih =>
    have hmem := mem_cache_of_cached h
    rw [run_append, run_cons, run_nil] at hmem
    rcases mem_cache_or_enters hmem with hold | ⟨waiters, henters⟩
    · -- The last step left the value alone, so its origin is an earlier one.
      have hcached : ((fresh name options created).run before).cached? key = some value := by
        rw [cached?_of_caching (by rw [options_run, fresh, hcaching])]
        exact Entries.get?_of_mem (nodup_cache_run name options created before) hold
      obtain ⟨earlier, b, later, waiters, rfl, henters, hsince⟩ := ih hcached
      refine ⟨earlier, b, later ++ [a], waiters, by simp, henters, fun more hmore => ?_⟩
      rcases List.prefix_concat_iff.mp hmore with rfl | hmore
      · simpa using h
      · exact hsince more hmore
    · refine ⟨before, a, [], waiters, rfl, henters, fun more hmore => ?_⟩
      rw [List.prefix_nil.mp hmore]
      exact h

end Origin

section Waiters

variable {name : String} {v : Nat}

theorem WellFormed.waiter_of_load (h : l.WellFormed) (ht : (l.load key).2 = .queued name v) :
    v = l.waiterCount ∧ (l.load key).1.waiterCount = l.waiterCount + 1 := by
  cases hc : l.cached? key with
  | some value =>
    rw [load_hit hc] at ht
    cases ht
  | none =>
    cases hb : l.options.batching with
    | false =>
      rw [load_direct hc hb] at ht
      cases ht
    | true =>
      obtain ⟨hticket, -, hcount, -⟩ := h.queued_of_miss hb hc
      rw [hticket] at ht
      exact ⟨(Ticket.queued.inj ht).2.symm, hcount⟩

/-- At any time the waiter of a load waits for the key of the load, wherever it waits. -/
theorem Loaded.waitsFor (h : l.Loaded steps key (.queued name v)) (hl : l.WellFormed)
    {earlier later : List LoaderStep} (hsteps : steps = earlier ++ later)
    (hv : v ∈ (l.run earlier).waiters) : (l.run earlier).WaitsFor v key := by
  rw [(hl.run earlier).mem_waiters] at hv
  obtain ⟨before, after, hload, hticket⟩ := h
  have hbefore := hl.run before
  obtain ⟨rfl, hcount⟩ := hbefore.waiter_of_load hticket
  rcases List.append_eq_append_iff.mp (hsteps.symm.trans hload) with ⟨r, rfl, -⟩ | ⟨r, rfl, hr⟩
  · -- The waiter is there, so its load is not still to come.
    have hle := waiterCount_le_run (l.run earlier) r
    rw [← run_append] at hle
    omega
  · cases r with
    | nil =>
      rw [List.append_nil] at hv
      exact absurd hv (Nat.lt_irrefl _)
    | cons b r =>
      obtain ⟨rfl, -⟩ := List.cons.inj hr
      have hlt : (l.run before).waiterCount < ((l.run before).load key).1.waiterCount := by omega
      rw [run_append, run_cons]
      exact (hbefore.waitsFor_load key).run hlt r

theorem Loaded.key_eq (h : l.Loaded steps key (.queued name v)) (hl : l.WellFormed)
    {earlier later : List LoaderStep} (hsteps : steps = earlier ++ later) {e : QueueEntry}
    (he : e ∈ (l.run earlier).openEntries) (hv : v ∈ e.waiters) : e.key = key :=
  h.waitsFor hl hsteps (mem_waiters_of_open he hv) e he hv

theorem Enters.key_eq {earlier later : List LoaderStep} {waiters : List Nat} {k : Json}
    (h : (l.run earlier).Enters key value a waiters) (hl : l.WellFormed)
    (hsteps : steps = earlier ++ later) (hload : l.Loaded steps k (.queued name v))
    (hv : v ∈ waiters) : k = key := by
  cases h with
  | chunk hc hlen he hkey hvalue =>
    rw [← hkey]
    exact (hload.key_eq hl hsteps (mem_open_of_chunk hc (List.mem_of_getElem? he)) hv).symm
  | alone => exact absurd hv List.not_mem_nil
  | primed => exact absurd hv List.not_mem_nil

end Waiters

/-- Values of one text are one value. Two loads that wait in one entry asked for one value; and what
a load gets from the cache was entered for the very value that it asked for, as an answer to loads
of that value or by a prime, and has been cached since. -/
theorem keys_apart :
    (∀ a b : Json, a.text = b.text → a = b) ∧
      ∀ (name : String) (options : LoaderOptions) (created : Nat) (steps : List LoaderStep),
        let l := fresh name options created
        (∀ a v b w, l.Loaded steps a (.queued name v) → l.Loaded steps b (.queued name w) →
          ∀ e ∈ (l.run steps).openEntries, v ∈ e.waiters → w ∈ e.waiters → a = b) ∧
        ∀ b value, ((l.run steps).load b).2 = .answered value →
          ∃ earlier entering later waiters, steps = earlier ++ entering :: later ∧
            (l.run earlier).Enters b value entering waiters ∧
            (∀ more, more <+: later →
              (l.run (earlier ++ entering :: more)).cached? b = some value) ∧
            ∀ a v, l.Loaded steps a (.queued name v) → v ∈ waiters → a = b := by
  refine ⟨fun a b => Json.text_injective, fun name options created steps => ?_⟩
  intro l
  have hwf : l.WellFormed := wellFormed_fresh name options created
  constructor
  · intro a v b w ha hb e he hv hw
    have hsteps : steps = steps ++ [] := (List.append_nil _).symm
    rw [← ha.key_eq hwf hsteps he hv, hb.key_eq hwf hsteps he hw]
  · intro b value hanswer
    obtain ⟨earlier, entering, later, waiters, hsteps, henters, hsince⟩ :=
      origin_of_cached (cached?_of_answered hanswer)
    exact ⟨earlier, entering, later, waiters, hsteps, henters, hsince,
      fun a v hload hv => henters.key_eq hwf hsteps hload hv⟩

theorem keys_apart_number_and_text :
    let l := fresh "ids" {}
    let waiting : List LoaderStep := [.load (.int 1), .load (.str "1"), .load (.int 1)]
    let steps := waiting ++ [.start, .complete 0 (.ok [.int 7, .str "7"])]
    (l.run waiting).openEntries.map (·.waiters) = [[0, 2], [1]] ∧
      (l.Loaded waiting (.int 1) (.queued "ids" 2) ∧
        ∀ b, l.Loaded waiting b (.queued "ids" 2) → .int 1 = b) ∧
      ((l.run steps).load (.str "1")).2 = .answered (.str "7") ∧
      ∃ earlier entering later waiters, steps = earlier ++ entering :: later ∧
        (l.run earlier).Enters (.str "1") (.str "7") entering waiters ∧
        (∀ more, more <+: later →
          (l.run (earlier ++ entering :: more)).cached? (.str "1") = some (.str "7")) ∧
        ∀ a v, l.Loaded steps a (.queued "ids" v) → v ∈ waiters → a = .str "1" := by
  intro l waiting steps
  have hfirst : l.Loaded waiting (.int 1) (.queued "ids" 0) :=
    ⟨[], [.load (.str "1"), .load (.int 1)], rfl, rfl⟩
  have hagain : l.Loaded waiting (.int 1) (.queued "ids" 2) :=
    ⟨[.load (.int 1), .load (.str "1")], [], rfl, rfl⟩
  have hopen : ⟨.int 1, [0, 2]⟩ ∈ (l.run waiting).openEntries := List.mem_cons_self
  have hanswer : ((l.run steps).load (.str "1")).2 = .answered (.str "7") := by rfl
  refine ⟨rfl, ⟨hagain, fun b hb => ?_⟩, hanswer, (keys_apart.2 "ids" {} 0 steps).2 _ _ hanswer⟩
  exact (keys_apart.2 "ids" {} 0 waiting).1 _ _ _ _ hfirst hb _ hopen (by decide) (by decide)

end Loader

end SchemaAssembly
