/-!
Classes of characters given as ranges of code points.
-/
namespace ZeroRun.Text

/-- Does the code point lie in one of the ranges? Both ends belong to a range. -/
def inRanges (ranges : List (Nat × Nat)) (code : Nat) : Bool :=
  ranges.any fun (first, last) => first ≤ code && code ≤ last

end ZeroRun.Text
