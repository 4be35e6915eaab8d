/-!
# A clock with known ticks

The clock of a tool.  Each reading first lets the next tick pass; the ticks repeat.
-/

namespace RazorLayout

/-- The number of ticks in a second, where a clock does not say otherwise. -/
def quarterSeconds : Nat := 4

/-- A clock. -/
structure Clock where
  /-- The number of ticks in a second. -/
  rate : Nat := quarterSeconds
  /-- The ticks of one round. -/
  round : List Nat
  /-- The ticks that are left of the current round. -/
  pending : List Nat := []
  /-- The time that has passed. -/
  time : Nat := 0
  deriving DecidableEq, Repr

namespace Clock

/-- The time after the next tick. -/
def read (clock : Clock) : Nat × Clock :=
  match clock.pending with
  | tick :: rest => (clock.time + tick, { clock with pending := rest, time := clock.time + tick })
  | [] =>
      match clock.round with
      | tick :: rest =>
          (clock.time + tick, { clock with pending := rest, time := clock.time + tick })
      | [] => (clock.time, clock)

/-- The time between two readings. -/
def measure (clock : Clock) : Nat × Clock :=
  let (start, clock) := clock.read
  let (stop, clock) := clock.read
  (stop - start, clock)

end Clock

end RazorLayout
