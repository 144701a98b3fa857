/-!
# Limits of a run

How many steps a run may take, how long it may last, how deeply calls may nest, and how large its
output and its strings may grow.
-/

namespace Scriptlet

structure Limits where
  stepBudget : Nat := 1000000
  timeoutMs : Nat := 2000
  maxCallDepth : Nat := 200
  maxOutputBytes : Nat := 65536
  maxValueBytes : Nat := 1048576
deriving DecidableEq, Repr

/-- The steps at which the clock is read: the multiples of this number. -/
def clockInterval : Nat := 256

/-- What the clock shows in the course of a run: whether the time limit has passed when the given
number of steps has been taken. -/
structure Clock where
  expired : Nat → Bool

namespace Clock

def never : Clock := ⟨fun _ => false⟩

def always : Clock := ⟨fun _ => true⟩

/-- The clock of a run that takes no time: only a limit of zero has passed, and that from the start. -/
def instant (timeoutMs : Nat) : Clock := ⟨fun _ => timeoutMs = 0⟩

def after (n : Nat) : Clock := ⟨fun steps => n ≤ steps⟩

end Clock

structure Bounds where
  limits : Limits := {}
  clock : Clock := .never

end Scriptlet
