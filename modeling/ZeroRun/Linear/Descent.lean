import ZeroRun.Linear.Reduction

/-!
A quick search for a model. The corner of the region of the constraints is tried first. If it is
not whole, the grid of whole vectors within the region is looked at: either it misses the region,
or the region is endless in so many directions that a vector can be moved into it along the rays,
or there is a weighted sum that takes few whole values within the region, and these are tried one
by one.

The answer is a vector or a refutation. Neither is trusted, and the search may give up. A search
that has found a vector can be resumed when further clauses are known.
-/
namespace ZeroRun.Linear

/-- What a search comes to. -/
inductive Outcome where
  | found (x : List Int) (resume : List Clause → Outcome)
  | refuted (reason : Refutation)
  | unclear

/-- Goes on with the refutation of a part, once it is refuted, and with the clauses known then. -/
def Outcome.andThen : Outcome → List Clause → (List Clause → Refutation → Outcome) → Outcome
  | .found x resume, _, next => .found x fun clauses => (resume clauses).andThen clauses next
  | .refuted reason, clauses, next => next clauses reason
  | .unclear, _, _ => .unclear

/-- A search for a vector of a region that satisfies clauses. -/
abbrev Searcher := List Clause → Region → Outcome

/-- The reason for a part of a region as one for the region itself, if it uses none of the further
constraints of the part, `further` of them. -/
def widened? (r : Region) : (further : Nat) → Refutation → Option Refutation
  | 0, reason => some reason
  | further + 1, reason =>
    let k := r.constraints.size + further
    if reason.uses k then none else widened? r further (reason.without k)

/-- Searches the part of a region where a constraint holds. -/
def Searcher.part (search : Searcher) (clauses : List Clause) (r : Region) (c : Constraint) :
    Outcome :=
  match r.narrow c with
  | .error multipliers => .refuted (.sum multipliers)
  | .ok narrower => search clauses narrower

/-- Searches the part of a region where a constraint holds. If the part is refuted for a reason
that does not need the constraint, so is the region; otherwise the search goes on as said. -/
def Searcher.within (search : Searcher) (clauses : List Clause) (r : Region) (c : Constraint)
    (next : List Clause → Refutation → Outcome) : Outcome :=
  (search.part clauses r c).andThen clauses fun clauses reason =>
    match widened? r 1 reason with
    | some wide => .refuted wide
    | none => next clauses reason

/-- A weighted sum with the least and the greatest whole value that it may take. -/
structure Span where
  weights : List Int
  low : Int
  high : Int

/-- The number of values. -/
def Span.count (s : Span) : Nat :=
  (s.high - s.low + 1).toNat

/-- Searches for each value of a weighted sum in turn, until a vector is found. Collects the
refutations. -/
def Searcher.eachValue (search : Searcher) (r : Region) (weights : List Int)
    (next : List Clause → List (Int × Refutation) → Outcome) :
    List Int → List (Int × Refutation) → List Clause → Outcome
  | [], reasons, clauses => next clauses reasons
  | v :: vs, reasons, clauses =>
    search.within clauses r ⟨weights, .equal, v⟩ fun clauses reason =>
      eachValue search r weights next vs ((v, reason) :: reasons) clauses

/-- The whole numbers from `low` on, `count` of them, those in the middle first. -/
def middleOut (low : Int) (count : Nat) : List Int :=
  let middle := low + (count / 2 : Nat)
  (List.range (count + 1)).flatMap (fun (k : Nat) => [middle + k, middle - k - 1])
    |>.filter fun v => low ≤ v && v < low + count

/-- Searches for each value that a weighted sum may have, at first from `low` on, `count` values
in all, then below and above. -/
def Searcher.branch (search : Searcher) (weights : List Int) (low : Int) (count : Nat) :
    Searcher := fun clauses r =>
  search.eachValue r weights (fun clauses reasons =>
      search.within clauses r ⟨weights, .atMost, low - 1⟩ fun clauses below =>
        search.within clauses r ⟨weights, .atLeast, low + count⟩ fun _ above =>
          .refuted (.values weights low below above
            ((reasons.mergeSort fun a b => a.1 ≤ b.1).map Prod.snd)))
    (middleOut low count) [] clauses

/-- Searches for the middle values of a weighted sum that takes many of them. -/
def Searcher.probe (search : Searcher) (span : Span) : Searcher := fun clauses r =>
  search.eachValue r span.weights (fun _ _ => .unclear)
    (middleOut ((span.low + span.high) / 2 - 50) 100) [] clauses

/-- Searches for the values of weighted sums, one sum after the other. -/
def Searcher.through (search : Searcher) : List Span → Searcher
  | [] => search
  | span :: spans =>
    if 1000 < span.count then Searcher.probe (search.through spans) span
    else Searcher.branch (search.through spans) span.weights span.low span.count

/-- Searches for each choice of a clause in turn. When a choice has failed, it is taken not to
hold; if that leaves nothing, the further choices fail as well. -/
def Searcher.eachChoice (search : Searcher) (k : Nat) (whole : Region) :
    (choices : List Constraint) → (part : Region) → List Refutation → List Clause → Outcome
  | [], _, reasons, _ => .refuted (.choices k reasons.reverse)
  | choice :: choices, part, reasons, clauses =>
    (search.part clauses part choice).andThen clauses fun clauses reason =>
      match widened? whole (part.constraints.size - whole.constraints.size + 1) reason with
      | some wide => .refuted wide
      | none =>
        match part.narrowAll (negation choice) with
        | .ok rest => eachChoice search k whole choices rest (reason :: reasons) clauses
        | .error multipliers =>
          .refuted (.choices k
            (reasons.reverse ++ reason :: choices.map fun _ => .sum multipliers))

/-- Does a choice of the clause hold of the fractions with these numerators and this
denominator? -/
def holdsOf (x : List Int) (denominator : Int) (clause : Clause) : Bool :=
  List.any clause fun c => c.comparison.holds (c.evaluate x) (c.bound * denominator)

/-- Searches for each choice of the first clause that fails at a vector of fractions of the
region. If none fails and the fractions are whole, the vector is found, and the search can be
resumed; otherwise it goes on as said. -/
def Searcher.choose (search : Searcher) (clauses : List Clause) (r : Region) (x : List Int)
    (denominator : Int) (otherwise : Region → Outcome) : Outcome :=
  match clauses.findIdx? (fun clause => !holdsOf x denominator clause) with
  | some k => search.eachChoice k r (clauses.getD k []) r [] clauses
  | none => if denominator = 1 then .found x fun clauses => search clauses r else otherwise r

/-- How often rays have to be added together so that no form is negative. -/
def raise (values ray : Array Int) : Int :=
  (values.zip ray).foldl (fun m (v, s) => if v < 0 && 0 < s then max m ((-v + s - 1) / s) else m) 0

/-- Takes a ray away as often as no form becomes negative. -/
def lower (values ray : Array Int) : Array Int :=
  match ((values.zip ray).toList.filterMap fun (v, s) =>
      if 0 < s then some (v / s) else none).min? with
  | some k => addScaled values (-k) ray
  | none => values

/-- Moves a vector along the rays until no form is negative, and back as far as possible. -/
def alongRays (rays : List (Array Int)) (values : Array Int) : Array Int :=
  match rays with
  | [] => values
  | first :: rest =>
    let total := rest.foldl (addScaled · 1 ·) first
    rays.foldl lower (addScaled values (raise values total) total)

/-- The spans of the given forms, until one has no value. -/
def spansOf : (forms : List Nat) → Region → List (Nat × Span) → Region × List (Nat × Span)
  | [], r, spans => (r, spans)
  | form :: forms, r, spans =>
    let weights := r.weightsOf form
    match r.span? weights with
    | (r, none) => spansOf forms r spans
    | (r, some (low, high)) =>
      let span : Span := ⟨weights, low, high⟩
      if span.count = 0 then (r, [(form, span)])
      else spansOf forms r ((form, span) :: spans)

/-- The span with the fewest values. -/
def narrowest : List Span → Option Span
  | [] => none
  | s :: rest =>
    match narrowest rest with
    | none => some s
    | some t => if s.count ≤ t.count then some s else some t

/-- The weights of the forms for measuring directions: the longer the span, the less. -/
def spanWeights (size : Nat) (spans : List (Nat × Span)) : Array Int :=
  let longest := spans.foldl (fun m (_, s) => max m (s.high - s.low)) 1
  spans.foldl (fun weights (form, s) =>
      let w := longest / max 1 (s.high - s.low)
      weights.setIfInBounds form (w * w))
    (Array.replicate size 0)

/-- Weighted sums that take few values within a region. As long as there are forms with at most
one value, these are taken. -/
def fewValues (r : Region) (forms : List Nat) (directions : List Direction) : List Span :=
  let (r, spans) := spansOf forms r []
  match (spans.map Prod.snd).filter (·.count ≤ 1) with
  | [] =>
    let short := reduceDirections (spanWeights r.size spans) directions
    let readings : List Span := short.filterMap fun a =>
      let weights := a.reading.toList
      (r.span? weights).2.map fun (low, high) => ⟨weights, low, high⟩
    (narrowest (readings ++ spans.map Prod.snd)).toList
  | forced => forced

/-- Searches a region whose corner is not whole. -/
def Searcher.searchGrid (search : Searcher) : Searcher := fun clauses r =>
  match Frame.ofEquations r with
  | .error (weights, below) => search.branch weights (below + 1) 0 clauses r
  | .ok frame =>
    let (r, endless) := r.endless
    let forms := (List.range r.size).filter fun form => endless.limited.getD form false
    let (directions, _) := separateBy forms frame.directions
    if directions.isEmpty then
      let x := (alongRays endless.rays frame.origin).toList.take r.unknowns
      search.choose clauses r x 1 fun _ => .unclear
    else
      match fewValues r (forms.filter fun form => directions.any (·.change form ≠ 0)) directions with
      | [] => .unclear
      | spans => search.through spans clauses r

/-- Searches a region to a limited depth. -/
def searchRegion : (depth : Nat) → Searcher
  | 0, _, _ => .unclear
  | depth + 1, clauses, r =>
    let search := searchRegion depth
    let (x, denominator) := r.corner
    search.choose clauses r x denominator fun r => search.searchGrid clauses r

/-- Searches for natural numbers for `n` unknowns of which all constraints and clauses hold. -/
def seek (n : Nat) (constraints : List Constraint) (clauses : List Clause) : Outcome :=
  match (Region.ofUnknowns n).narrowAll constraints with
  | .error multipliers => .refuted (.sum multipliers)
  | .ok r => searchRegion 10000 clauses r

end ZeroRun.Linear
