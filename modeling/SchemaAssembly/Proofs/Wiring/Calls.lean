import SchemaAssembly.Proofs.Wiring.Fetchers

/-!
Calls of contributors. They run one after the other, each finding what those before it left, and of
the calls that enter something in one place the last one counts.
-/

set_option autoImplicit false

namespace SchemaAssembly

section Calls

variable {σ κ α : Type}

/-- The calls of contributors that run one after another, each on what those before it left. -/
def callsFrom (apply : σ → κ → σ) : σ → List (σ → List κ) → List κ
  | _, [] => []
  | s, contribute :: rest =>
    contribute s ++ callsFrom apply ((contribute s).foldl apply s) rest

theorem foldl_callsFrom (apply : σ → κ → σ) (contributors : List (σ → List κ)) (s : σ) :
    (callsFrom apply s contributors).foldl apply s =
      contributors.foldl (fun s contribute => (contribute s).foldl apply s) s := by
  induction contributors generalizing s with
  | nil => rfl
  | cons contribute rest ih => rw [callsFrom, List.foldl_append, ih, List.foldl_cons]

def lastGiven (gives : κ → Option α) (calls : List κ) : Option α :=
  calls.reverse.findSome? gives

theorem lastGiven_cons (gives : κ → Option α) (call : κ) (calls : List κ) :
    lastGiven gives (call :: calls) = (lastGiven gives calls).or (gives call) := by
  simp [lastGiven, List.findSome?_append]

/-- Where every call leaves what it gives, or else what was there, the last one counts. -/
theorem foldl_eq_lastGiven {apply : σ → κ → σ} (look : σ → Option α) {gives : κ → Option α}
    (h : ∀ s call, look (apply s call) = (gives call).or (look s)) (calls : List κ) (s : σ) :
    look (calls.foldl apply s) = (lastGiven gives calls).or (look s) := by
  induction calls generalizing s with
  | nil => rfl
  | cons call rest ih => rw [List.foldl_cons, ih, h, lastGiven_cons, Option.or_assoc]

end Calls

namespace CodeCall

def bound? (c : Coordinates) : CodeCall → Option Fetcher
  | bind d f => if d = c then some f else none
  | _ => none

theorem bound?_apply (c : Coordinates) (r : CodeRegistry) (call : CodeCall) :
    (apply r call).bound? c = (call.bound? c).or (r.bound? c) := by
  cases call with
  | bind d f => by_cases hd : d = c <;> simp [apply, bound?, hd]
  | _ => rfl

theorem bound?_foldl (c : Coordinates) (calls : List CodeCall) (r : CodeRegistry) :
    (calls.foldl apply r).bound? c = (lastGiven (bound? c) calls).or (r.bound? c) :=
  foldl_eq_lastGiven (fun r => CodeRegistry.bound? r c) (bound?_apply c) calls r

end CodeCall

namespace WiringCall

def bound? (c : Coordinates) : WiringCall → Option Fetcher
  | bind d f => if d = c then some f else none
  | _ => none

def named? (name : String) : WiringCall → Option DirectiveWiring
  | addDirective n wiring => if n = name ∧ isBlankText n = false then some wiring else none
  | _ => none

def global? : WiringCall → Option DirectiveWiring
  | addDirective n wiring => if isBlankText n then some wiring else none
  | _ => none

theorem get?_fetchers_apply (c : Coordinates) (w : RuntimeWiring) (call : WiringCall) :
    FetcherTable.get? (apply w call).fetchers c =
      (call.bound? c).or (FetcherTable.get? w.fetchers c) := by
  cases call with
  | bind d f =>
    simp only [apply, RuntimeWiring.bind, FetcherTable.get?_put, bound?]
    split <;> rfl
  | addDirective name wiring =>
    simp only [apply, RuntimeWiring.addDirective]
    split <;> rfl
  | _ => rfl

theorem get?_fetchers_foldl (c : Coordinates) (calls : List WiringCall) (w : RuntimeWiring) :
    FetcherTable.get? (calls.foldl apply w).fetchers c =
      (lastGiven (bound? c) calls).or (FetcherTable.get? w.fetchers c) :=
  foldl_eq_lastGiven (fun w => FetcherTable.get? w.fetchers c) (get?_fetchers_apply c) calls w

theorem named?_apply (name : String) (w : RuntimeWiring) (call : WiringCall) :
    (apply w call).named? name = (call.named? name).or (w.named? name) := by
  cases call with
  | addDirective n wiring =>
    by_cases hblank : isBlankText n = true
    · simp [apply, RuntimeWiring.addDirective, RuntimeWiring.named?, named?, hblank]
    · by_cases hn : n = name
      · subst hn
        simp [apply, RuntimeWiring.addDirective, RuntimeWiring.named?, named?, hblank,
          Entries.get?_put_self]
      · simp [apply, RuntimeWiring.addDirective, RuntimeWiring.named?, named?, hblank, hn,
          Entries.get?_put_of_ne wiring w.directives (Ne.symm hn)]
  | _ => rfl

theorem named?_foldl (name : String) (calls : List WiringCall) (w : RuntimeWiring) :
    (calls.foldl apply w).named? name = (lastGiven (named? name) calls).or (w.named? name) :=
  foldl_eq_lastGiven (fun w => RuntimeWiring.named? w name) (named?_apply name) calls w

theorem globals_apply (w : RuntimeWiring) (call : WiringCall) :
    (apply w call).globals = w.globals ++ call.global?.toList := by
  cases call with
  | addDirective n wiring =>
    by_cases hblank : isBlankText n = true <;>
      simp [apply, RuntimeWiring.addDirective, global?, hblank]
  | _ => simp [apply, global?, RuntimeWiring.addScalar, RuntimeWiring.bind,
      RuntimeWiring.setResolver]

theorem globals_foldl (calls : List WiringCall) (w : RuntimeWiring) :
    (calls.foldl apply w).globals = w.globals ++ calls.filterMap global? := by
  induction calls generalizing w with
  | nil => simp
  | cons call rest ih =>
    rw [List.foldl_cons, ih, globals_apply, List.append_assoc, List.filterMap_cons]
    cases call.global? <;> rfl

theorem nodup_fetchers_foldl (calls : List WiringCall) (w : RuntimeWiring)
    (h : (w.fetchers.map (·.1)).Nodup) :
    ((calls.foldl apply w).fetchers.map (·.1)).Nodup := by
  induction calls generalizing w with
  | nil => exact h
  | cons call rest ih =>
    apply ih
    cases call with
    | bind c f => exact FetcherTable.nodup_put h
    | addDirective name wiring =>
      simp only [apply, RuntimeWiring.addDirective]
      split <;> exact h
    | _ => exact h

end WiringCall

end SchemaAssembly
