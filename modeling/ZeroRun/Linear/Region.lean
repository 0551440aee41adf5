import ZeroRun.Linear.Dictionary
import ZeroRun.Linear.Refutation

/-!
The region of vectors that satisfy linear constraints, with a dictionary that shows a corner of
it. The forms of a region are its unknowns and, after them, what its constraints leave over.
-/
namespace ZeroRun.Linear

/-- Non-negative unknowns with constraints, and a dictionary without negative constants. -/
structure Region where
  unknowns : Nat
  constraints : Array Constraint
  dictionary : Dictionary

/-- The constant and the weights of what a constraint leaves over. -/
def leftOver : Constraint → Int × List Int
  | ⟨coefficients, .atLeast, bound⟩ => (-bound, coefficients)
  | ⟨coefficients, _, bound⟩ => (bound, coefficients.map (-·))

namespace Region

/-- The region of all non-negative vectors. -/
def ofUnknowns (n : Nat) : Region :=
  ⟨n, #[], .ofUnknowns n⟩

/-- The number of forms. -/
def size (r : Region) : Nat :=
  r.unknowns + r.constraints.size

/-- More exchanges than a dictionary of the region needs. -/
def patience (r : Region) : Nat :=
  64 * (r.size + 16)

/-- The weighted sum of the unknowns as a line. -/
def express (r : Region) (constant : Int) (weights : List Int) : Line :=
  r.dictionary.express r.size constant (weights.take r.unknowns).toArray

/-- The multipliers of the constraints in what a line of a dictionary says. -/
def multipliers (r : Region) (d : Dictionary) (line : Line) : List Int :=
  let weights := (d.free.zip line.entries).foldl
    (fun weights (form, e) => weights.setIfInBounds form (-e)) (Array.replicate r.size 0)
  let weights := weights.setIfInBounds line.form line.scale
  ((weights.extract r.unknowns r.size).zip r.constraints).toList.map fun (w, c) =>
    if c.comparison = .atLeast then -w else w

/-- The part of the region where one more constraint holds, or multipliers that show it to be
empty. -/
def narrow (r : Region) (c : Constraint) : Except (List Int) Region := do
  let (constant, weights) := leftOver c
  let line := r.express constant weights
  let longer := { r with constraints := r.constraints.push c }
  let put ← match c.comparison with
    | .equal => (r.dictionary.pin line).mapError fun (d, line) => longer.multipliers d line
    | _ => pure { r.dictionary with lines := r.dictionary.lines.push line }
  let repaired ← (put.repair r.patience).mapError fun (d, line) => longer.multipliers d line
  return { longer with dictionary := repaired }

/-- The part of the region where further constraints hold. -/
def narrowAll (r : Region) (constraints : List Constraint) : Except (List Int) Region :=
  constraints.foldlM narrow r

/-- The unknowns in the corner that the dictionary shows, with a common denominator. -/
def corner (r : Region) : List Int × Int :=
  let lines := r.dictionary.lines.filter fun l => l.form < r.unknowns
  let common := lines.foldl
    (fun m l => Nat.lcm m (l.scale.natAbs / Nat.gcd l.scale.natAbs l.constant.natAbs)) 1
  ((lines.foldl (fun x l => x.setIfInBounds l.form (l.constant * common / l.scale))
    (Array.replicate r.unknowns 0)).toList, common)

/-- The weights of a form, its constant left out. -/
def weightsOf (r : Region) (form : Nat) : List Int :=
  if form < r.unknowns then (List.range r.unknowns).map fun k => if k = form then 1 else 0
  else ((r.constraints[form - r.unknowns]?).map fun c => (leftOver c).2).getD []

/-- The greatest whole number that a weighted sum may reach within the region. -/
def top? (r : Region) (weights : List Int) : Region × Option Int :=
  let (d, goal, endless) := r.dictionary.maximize r.patience (r.express 0 weights)
  ({ r with dictionary := d }, if endless.isSome then none else some (goal.constant / goal.scale))

/-- The least and the greatest whole number that a weighted sum may reach within the region. -/
def span? (r : Region) (weights : List Int) : Region × Option (Int × Int) :=
  let (r, high) := r.top? weights
  let (r, low) := r.top? (weights.map (-·))
  (r, high.bind fun h => low.map fun l => (-l, h))

end Region

/-- Changes of the forms along which a region is endless, and the forms that none of them
changes and that are not zero throughout. -/
structure Endless where
  rays : List (Array Int) := []
  limited : Array Bool

/-- The ray along the free form in a column, if nothing limits its growth. -/
def Region.rayAlong? (r : Region) (column : Nat) : Option (Array Int) :=
  let d := r.dictionary
  if d.pinned.getD column true || (d.limiting? column).isSome then none
  else
    let lines := d.lines.filter fun l => l.entry column ≠ 0
    let common := lines.foldl (fun m l => Nat.lcm m l.scale.natAbs) 1
    let ray := lines.foldl
      (fun ray l => ray.setIfInBounds l.form (l.entry column * common / l.scale))
      (Array.replicate r.size (0 : Int))
    some (ray.setIfInBounds (d.free.getD column 0) common)

/-- Takes a ray into account if it changes a form that was thought to be limited. -/
def Endless.add (e : Endless) (ray : Array Int) : Endless :=
  if (Array.zipWith (fun limited step => limited && step ≠ 0) e.limited ray).any (·) then
    { rays := ray :: e.rays
      limited := Array.zipWith (fun limited step => limited && step = 0) e.limited ray }
  else e

/-- The sum of the forms that are limited so far, each with some positive weight. -/
def Region.limitedSum (r : Region) (limited : Array Bool) : Line :=
  let d := r.dictionary
  d.lines.foldl (fun total l =>
      if limited.getD l.form false then
        { total with
          constant := total.constant + l.constant
          entries := Array.zipWith (· + ·) total.entries l.entries }
      else total)
    { form := r.size, entries := d.free.map fun u => if limited.getD u false then 1 else 0 }

/-- Finds rays until the sum of the remaining forms has a greatest value. -/
def Region.endlessFrom : (fuel : Nat) → Region → Endless → Region × Endless
  | 0, r, e => (r, e)
  | fuel + 1, r, e =>
    let (d, _, endless) := r.dictionary.maximize r.patience (r.limitedSum e.limited)
    let r := { r with dictionary := d }
    if endless.isNone then (r, e)
    else r.endlessFrom fuel ((List.range r.unknowns).filterMap r.rayAlong? |>.foldl Endless.add e)

/-- The rays of a region and its limited forms. -/
def Region.endless (r : Region) : Region × Endless :=
  r.endlessFrom (r.size + 1)
    { limited := Array.replicate r.unknowns true ++
        r.constraints.map fun c => decide (c.comparison ≠ .equal) }

end ZeroRun.Linear
