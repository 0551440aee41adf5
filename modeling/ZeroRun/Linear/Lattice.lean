import ZeroRun.Counters

/-!
Whole-number combinations of columns. Row by row, the greatest common divisor of the entries is
gathered into one column by Euclid's steps, and the target has to be a multiple of it. Each
column carries a record of how it was combined, and so does the target.
-/
namespace ZeroRun.Linear

/-- A column split into its entry in the current row and the remaining entries. -/
abbrev Split := Int × List Int

/-- Euclid's algorithm on the entries of two columns: the first result holds their common
divisor, and the second column has no entry left. -/
def euclid (a b : Split) : Split × List Int :=
  if b.1 = 0 then (a, b.2)
  else euclid b (a.1 % b.1, Counters.add a.2 (Counters.scale (-(a.1 / b.1)) b.2))
termination_by b.1.natAbs
decreasing_by
  have h : b.1 ≠ 0 := by assumption
  have lower := Int.emod_nonneg a.1 h
  have upper := Int.emod_lt a.1 h
  omega

/-- Gathers the entries of the current row into at most one column. -/
def gather : List (List Int) → Option Split × List (List Int)
  | [] => (none, [])
  | column :: columns =>
    let (pivot, others) := gather columns
    match column with
    | [] => (pivot, [] :: others)
    | x :: tail =>
      if x = 0 then (pivot, tail :: others)
      else
        match pivot with
        | none => (some (x, tail), others)
        | some p =>
          let (q, freed) := euclid p (x, tail)
          (some q, freed :: others)

/-- Reduces a target to zero in the given number of rows, and returns what remains of it. -/
def reduceRows : Nat → List (List Int) → List Int → Option (List Int)
  | 0, _, target => some target
  | _ + 1, _, [] => some []
  | rows + 1, columns, y :: target =>
    match gather columns with
    | (none, others) => if y = 0 then reduceRows rows others target else none
    | (some (h, tail), others) =>
      if y % h = 0 then
        reduceRows rows others (Counters.add target (Counters.scale (-(y / h)) tail))
      else none

/-- The vector of length `n` with a one at place `k`. -/
def unitVector (n k : Nat) : List Int :=
  (List.range n).map fun i => if i = k then 1 else 0

/-- Whole-number coefficients that combine the columns to the target, if there are any. -/
def combination? (columns : List Counters) (target : Counters) : Option (List Int) :=
  let n := columns.length
  let traced := columns.zipIdx.map fun (column, k) => column ++ unitVector n k
  (reduceRows target.length traced (target ++ Counters.zero n)).map (Counters.scale (-1))

end ZeroRun.Linear
