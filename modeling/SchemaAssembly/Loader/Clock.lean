/-!
The clock of a request. A clock shows one time after the other, and never goes back.
-/

set_option autoImplicit false

namespace SchemaAssembly

structure Clock where
  /-- What each reading shows, in nanoseconds. -/
  shows : Nat → Nat
  monotone : ∀ i j : Nat, i ≤ j → shows i ≤ shows j
  /-- How often the clock was read. -/
  reads : Nat := 0

namespace Clock

def now (c : Clock) : Nat := c.shows c.reads

def after (c : Clock) (reads : Nat) : Clock := { c with reads := c.reads + reads }

def next (c : Clock) : Clock := c.after 1

def stopped : Clock where
  shows _ := 0
  monotone _ _ _ := Nat.le_refl 0

end Clock

end SchemaAssembly
