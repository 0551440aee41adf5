/-!
The search for a circle in a graph, depth first. The search follows a trail. A node on the trail is
left when all its successors have been looked at, and is then done with. A successor that is on the
trail closes a circle, and one that has not been seen prolongs the trail.
-/
namespace ZeroRun.Circle
variable {α : Type} [DecidableEq α]

/-- The nodes on a trail, the last one first, each with its successors that have not been looked
at. -/
abbrev Trail (α : Type) := List (α × List α)

/-- How much of a trail is still to be looked at. -/
def Trail.rest (trail : Trail α) : Nat :=
  trail.foldr (fun entry rest => entry.2.length + 1 + rest) 0

/-- The nodes other than a given one. -/
def without (node : α) (nodes : List α) : List α :=
  nodes.filter (· ≠ node)

omit [DecidableEq α] in
theorem rest_cons (entry : α × List α) (trail : Trail α) :
    Trail.rest (entry :: trail) = entry.2.length + 1 + Trail.rest trail := rfl

theorem length_without_lt {node : α} {nodes : List α} (mem : node ∈ nodes) :
    (without node nodes).length < nodes.length :=
  List.length_filter_lt_length_iff_exists.2 ⟨node, mem, by simp⟩

/-- Follows a trail to its end, and gives the nodes that have not been seen then, or the node at
which a circle closes. -/
def follow (next : α → List α) (unseen : List α) (trail : Trail α) : Except α (List α) :=
  match trail with
  | [] => .ok unseen
  | (_, []) :: trail => follow next unseen trail
  | (node, other :: others) :: trail =>
    if other ∈ node :: trail.map Prod.fst then .error other
    else if other ∈ unseen then
      follow next (without other unseen) ((other, next other) :: (node, others) :: trail)
    else follow next unseen ((node, others) :: trail)
termination_by (unseen.length, trail.rest)
decreasing_by
  · exact .right _ (by simp [rest_cons])
  · exact .left _ _ (length_without_lt (by assumption))
  · exact .right _ (by simp [rest_cons])

/-- Begins a trail at each of the roots that has not been seen before. -/
def searchFrom (next : α → List α) : (roots unseen : List α) → Except α (List α)
  | [], unseen => .ok unseen
  | root :: roots, unseen =>
    if root ∈ unseen then do
      let unseen ← follow next (without root unseen) [(root, next root)]
      searchFrom next roots unseen
    else searchFrom next roots unseen

/-- A node on a circle of the graph, if there is a circle. -/
def find? (next : α → List α) (nodes : List α) : Option α :=
  match searchFrom next nodes nodes with
  | .ok _ => none
  | .error node => some node

end ZeroRun.Circle
