import ZeroRun.Linear.Frame

/-!
Short directions for a grid. The directions are replaced by others of the same grid that are
nearly orthogonal, so that the readings of the longer ones take few values within a bounded
region. The length of a direction weighs the change of each form.

All arithmetic is in whole numbers: the coefficients of the orthogonalized directions are kept
multiplied by the determinants of the leading Gram matrices.
-/
namespace ZeroRun.Linear

/-- The weighted inner product of the changes of two directions. -/
def Direction.inner (weights : Array Int) (a b : Direction) : Int :=
  (Array.zipWith (fun (w : Int) (xy : Int) => w * xy) weights
    (Array.zipWith (· * ·) a.changes b.changes)).foldl (· + ·) 0

/-- The determinant that belongs to a row of coefficients, its last entry; one before all rows. -/
def leadingDet (rows : Array (Array Int)) : Nat → Int
  | 0 => 1
  | k + 1 => (rows.getD k #[]).getD k 1

/-- Takes away the share of one earlier direction from a coefficient under computation. -/
def reduceCoefficient (rows : Array (Array Int)) (own row : Array Int) (u : Int) (i : Nat) : Int :=
  (leadingDet rows (i + 1) * u - own.getD i 0 * row.getD i 0) / leadingDet rows i

/-- The row of coefficients of a direction, given those of the directions before it. -/
def coefficientRow (weights : Array Int) (before : List Direction) (rows : Array (Array Int))
    (a : Direction) : Array Int :=
  let own := (before.zip rows.toList).foldl (fun own (b, row) =>
    own.push ((List.range own.size).foldl (reduceCoefficient rows own row) (a.inner weights b))) #[]
  own.push ((List.range own.size).foldl (reduceCoefficient rows own own) (a.inner weights a))

/-- The whole number nearest to a quotient with a positive divisor. -/
def nearest (x d : Int) : Int :=
  (2 * x + d) / (2 * d)

/-- Shortens a direction by those before it, the last one first. Their readings change. -/
def shorten (rows : Array (Array Int)) :
    (before : List Direction) → (k : Nat) → Direction → Array Int →
    List Direction × Direction × Array Int
  | [], _, a, own => ([], a, own)
  | b :: rest, k, a, own =>
    let (rest, a, own) := shorten rows rest (k + 1) a own
    let det := leadingDet rows (k + 1)
    let q := nearest (own.getD k 0) det
    if q = 0 then (b :: rest, a, own)
    else
      let (a, b) := a.shear b q
      let row := rows.getD k #[]
      (b :: rest, a, own.mapIdx fun i x => if i ≤ k then x - q * row.getD i 0 else x)

/-- Works through the directions: each is shortened by those before it, and exchanged with its
neighbour if that makes the leading directions shorter. -/
def reduceFrom (weights : Array Int) :
    (fuel : Nat) → (before : List Direction) → (rows : Array (Array Int)) →
    (after : List Direction) → List Direction
  | 0, before, _, after => before ++ after
  | _ + 1, before, _, [] => before
  | fuel + 1, before, rows, a :: after =>
    let k := before.length
    let (before, a, own) := shorten rows before 0 a (coefficientRow weights before rows a)
    match before.getLast? with
    | none => reduceFrom weights fuel [a] #[own] after
    | some b =>
      let det := leadingDet rows k
      let cross := own.getD (k - 1) 0
      if 4 * (own.getD k 0 * leadingDet rows (k - 1) + cross * cross) < 3 * det * det then
        reduceFrom weights fuel before.dropLast rows.pop (a :: b :: after)
      else reduceFrom weights fuel (before ++ [a]) (rows.push own) after

/-- Short directions for the same grid. -/
def reduceDirections (weights : Array Int) (directions : List Direction) : List Direction :=
  reduceFrom weights (1000 * (directions.length + 1)) [] #[] directions

end ZeroRun.Linear
