import ZeroRun.Datum

/-!
The clock of a query. It shows whole numbers, or it shows floating-point numbers, so the time
between two of its readings is always a number of its own kind.
-/
namespace ZeroRun

/-- The readings of a clock, one after another. -/
inductive Clock where
  | whole (reading : Nat → Int)
  | float (reading : Nat → Float)

namespace Clock

/-- The reading with a number. -/
def read : Clock → Nat → Number
  | .whole reading, tick => .int (reading tick)
  | .float reading, tick => .float (reading tick)

/-- The time between two readings. -/
def between : Clock → (earlier later : Nat) → Number
  | .whole reading, earlier, later => .int (reading later - reading earlier)
  | .float reading, earlier, later => .float (reading later - reading earlier)

/-- Readings of one clock can be subtracted. -/
theorem sub_read (clock : Clock) (earlier later : Nat) :
    (clock.read later).sub? (clock.read earlier) = some (clock.between earlier later) := by
  cases clock <;> rfl

end Clock
end ZeroRun
