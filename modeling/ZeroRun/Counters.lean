/-!
Counter vectors, one whole number per counter. Vectors of different lengths are combined entry
by entry as far as both reach.
-/
namespace ZeroRun

/-- A value for each counter, or a change of each. -/
abbrev Counters := List Int

/-- A word over transition indices. -/
abbrev Word := List Int

namespace Counters

/-- The vector with every counter at zero. -/
def zero (dimension : Nat) : Counters :=
  List.replicate dimension 0

/-- The sum, entry by entry. -/
def add (a b : Counters) : Counters :=
  List.zipWith (· + ·) a b

/-- Every entry multiplied by `k`. -/
def scale (k : Int) (a : Counters) : Counters :=
  a.map (k * ·)

/-- The sum of the products of entries. -/
def dot (a b : Counters) : Int :=
  (List.zipWith (· * ·) a b).foldr (· + ·) 0

/-- Are all counters zero? -/
def isZero (a : Counters) : Bool :=
  a.all (· = 0)

/-- Is no counter below zero? -/
def isNonneg (a : Counters) : Bool :=
  a.all (0 ≤ ·)

/-- The largest absolute value, zero for the empty vector. -/
def peak (a : Counters) : Nat :=
  a.foldl (fun m x => max m x.natAbs) 0

end Counters

end ZeroRun
