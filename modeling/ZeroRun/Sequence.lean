/-!
Lists by position and without repetitions.
-/
namespace ZeroRun

/-- The item at an index that counts from the front, or from the back when it is negative. -/
def itemAt? {α : Type} (items : List α) (index : Int) : Option α :=
  if 0 ≤ index then items[index.toNat]?
  else if -index ≤ items.length then items[items.length - (-index).toNat]?
  else none

/-- The first items, `count` of them; a negative count leaves out that many at the end. -/
def takeItems {α : Type} (items : List α) (count : Int) : List α :=
  if 0 ≤ count then items.take count.toNat else items.take (items.length - (-count).toNat)

/-- The items without repetitions, each at its first place. -/
def distinct {α : Type} [DecidableEq α] : List α → List α
  | [] => []
  | x :: xs => x :: (distinct xs).filter (· ≠ x)

theorem mem_distinct {α : Type} [DecidableEq α] {x : α} {xs : List α} :
    x ∈ distinct xs ↔ x ∈ xs := by
  induction xs with
  | nil => simp [distinct]
  | cons y ys ih =>
    by_cases h : x = y <;> simp [distinct, ih, h]

theorem nodup_distinct {α : Type} [DecidableEq α] (xs : List α) : (distinct xs).Nodup := by
  induction xs with
  | nil => simp [distinct]
  | cons y ys ih =>
    simp only [distinct, List.nodup_cons, List.mem_filter]
    exact ⟨by simp, ih.filter _⟩

/-- The items found so far and those found from the latest ones by at most `rounds` rounds of
`next`. -/
def spreadFrom {α : Type} [DecidableEq α] (next : α → List α) :
    (rounds : Nat) → (found latest : List α) → List α
  | 0, found, _ => found
  | rounds + 1, found, latest =>
    match (distinct (latest.flatMap next)).filter (· ∉ found) with
    | [] => found
    | new => spreadFrom next rounds (found ++ new) new

/-- Everything found from `start` by at most `rounds` rounds of `next`. -/
def spread {α : Type} [DecidableEq α] (next : α → List α) (rounds : Nat) (start : List α) :
    List α :=
  spreadFrom next rounds start start

end ZeroRun
