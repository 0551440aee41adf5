import ZeroRun.Linear.Region

/-!
The whole-number vectors of a region as a grid: an origin, and directions of which each vector is
reached by whole-number steps. A direction has a reading, a weighted sum of the unknowns that
tells how many steps a vector is away along it.

Euclid's steps gather the changes of one form into a single direction. If the form has a fixed
value, so has the reading of that direction.
-/
namespace ZeroRun.Linear

/-- How the forms change along a direction, and the weighted sum that reads its steps. -/
structure Direction where
  changes : Array Int
  reading : Array Int
deriving Inhabited

/-- The change of a form. -/
def Direction.change (a : Direction) (form : Nat) : Int :=
  a.changes.getD form 0

/-- Adds a multiple of one array to another. -/
def addScaled (a : Array Int) (k : Int) (b : Array Int) : Array Int :=
  Array.zipWith (fun x y => x + k * y) a b

/-- Takes `q` times the second direction away from the first one. For the vectors to stay the
same, the second one reads more. -/
def Direction.shear (a b : Direction) (q : Int) : Direction × Direction :=
  ({ a with changes := addScaled a.changes (-q) b.changes },
   { b with reading := addScaled b.reading q a.reading })

/-- Euclid's algorithm on the changes of a form: the second direction changes it no more. -/
def Direction.euclid (form : Nat) : (fuel : Nat) → Direction → Direction → Direction × Direction
  | 0, a, b => (a, b)
  | fuel + 1, a, b =>
    if b.change form = 0 then (a, b)
    else
      let (a, b) := a.shear b (a.change form / b.change form)
      euclid form fuel b a

/-- Gathers the changes of a form into at most one direction. -/
def gatherForm (form : Nat) : List Direction → Option Direction × List Direction
  | [] => (none, [])
  | a :: rest =>
    let (pivot, others) := gatherForm form rest
    if a.change form = 0 then (pivot, a :: others)
    else
      match pivot with
      | none => (some a, others)
      | some p =>
        let (q, freed) := p.euclid form (2 * Nat.log2 (a.change form).natAbs + 4) a
        (some q, freed :: others)

/-- A grid of vectors. -/
structure Frame where
  origin : Array Int
  directions : List Direction

/-- All whole-number vectors. -/
def Frame.ofRegion (r : Region) : Frame :=
  let sides := r.constraints.map leftOver
  { origin := Array.replicate r.unknowns 0 ++ sides.map Prod.fst
    directions := (List.range r.unknowns).map fun k =>
      let axis := (Array.range r.unknowns).map fun i => if i = k then (1 : Int) else 0
      { changes := axis ++ sides.map fun s => s.2.getD k 0
        reading := axis } }

/-- The vectors of the grid at which a form is zero. If there are none, some reading would have
to be a fraction: the weights of the reading and the whole number below the fraction are
returned. -/
def Frame.restrict (frame : Frame) (form : Nat) : Except (List Int × Int) Frame :=
  let value := frame.origin.getD form 0
  match gatherForm form frame.directions with
  | (none, others) => .ok { frame with directions := others }
  | (some pivot, others) =>
    let h := pivot.change form
    let steps := Int.fdiv (-value) h
    if value % h = 0 then
      .ok { origin := addScaled frame.origin steps pivot.changes, directions := others }
    else .error (pivot.reading.toList, steps)

/-- The grid of the vectors that satisfy all equations of a region. -/
def Frame.ofEquations (r : Region) : Except (List Int × Int) Frame :=
  (List.range r.constraints.size).foldlM (fun frame k =>
    if (r.constraints[k]?).any (·.comparison = .equal) then frame.restrict (r.unknowns + k)
    else pure frame) (Frame.ofRegion r)

/-- Separates directions that change some of the given forms from directions that change none. -/
def separateBy : (forms : List Nat) → List Direction → List Direction × List Direction
  | [], directions => ([], directions)
  | form :: forms, directions =>
    match gatherForm form directions with
    | (none, others) => separateBy forms others
    | (some pivot, others) =>
      let (changing, idle) := separateBy forms others
      (pivot :: changing, idle)

end ZeroRun.Linear
