import ZeroRun.Counters

/-!
The alternative for a column of a matrix: either it takes part with a positive weight in a
non-negative combination of the columns that sums to zero, or a linear functional is positive on
it and non-negative on every other column. `separate` finds a combination and a functional at
once, in whole numbers, of which one decides.
-/
namespace ZeroRun.Linear

/-- A non-negative combination of a head column and further columns, and a functional. -/
structure Separation where
  headWeight : Int
  weights : List Int
  functional : Counters
deriving Repr

/-- The greatest common divisor of a list. -/
def content (v : List Int) : Nat :=
  v.foldl (fun g x => Nat.gcd g x.natAbs) 0

/-- The list divided by its greatest common divisor. -/
def primitive (v : List Int) : List Int :=
  if content v ≤ 1 then v else v.map (· / content v)

/-- Removes from `a` what the functional sees, along the column `c`. -/
def project (functional c a : Counters) : Counters :=
  Counters.add (Counters.scale (-(Counters.dot functional c)) a)
    (Counters.scale (Counters.dot functional a) c)

/-- Takes the combination and the functional found among projected columns back to the columns
themselves, with the column `c` in front. -/
def lift (functional c head : Counters) (rest : List Counters) (t : Separation) : Separation :=
  let k := -(Counters.dot functional c)
  let own := t.headWeight * Counters.dot functional head
    + Counters.dot t.weights (rest.map (Counters.dot functional))
  let weights := primitive (k * t.headWeight :: own :: t.weights.map (k * ·))
  { headWeight := weights.headD 0
    weights := weights.tail
    functional := primitive (Counters.add (Counters.scale k t.functional)
      (Counters.scale (Counters.dot t.functional c) functional)) }

/-- The functional that reads off the first entry that is not zero, with the sign that makes it
positive there. -/
def leading : Counters → Counters
  | [] => []
  | x :: xs => if x = 0 then 0 :: leading xs else x.sign :: xs.map fun _ => 0

/-- Either the head has a positive weight, or the functional is positive on it. A column on which
the functional found so far is negative is projected away, and the search goes on among the
projections. -/
def separate (head : Counters) : List Counters → Separation
  | [] => if head.isZero then ⟨1, [], head⟩ else ⟨0, [], leading head⟩
  | c :: rest =>
    let s := separate head rest
    if 0 ≤ Counters.dot s.functional c then { s with weights := 0 :: s.weights }
    else
      lift s.functional c head rest
        (separate (project s.functional c head) (rest.map (project s.functional c)))
termination_by columns => columns.length
decreasing_by all_goals simp

end ZeroRun.Linear
