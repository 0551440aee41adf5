/-!
A pool of workers. The tasks of a batch are handed out to the workers and completed in any order.
Each result is kept in the place of its task, and the results are read off when none is missing.
-/
namespace ZeroRun

/-- The order in which the tasks of each batch are completed. Each task is completed once. -/
structure Pool where
  order : (batch count : Nat) → List Nat
  complete : ∀ batch count, (order batch count).Perm (List.range count)

namespace Pool

/-- The pool that completes its tasks in turn. -/
def inTurn : Pool where
  order _ count := List.range count
  complete _ _ := .refl _

/-- The results when one more task is completed. -/
def keep {α β : Type} (f : α → β) (tasks : List α) (results : List (Option β)) (place : Nat) :
    List (Option β) :=
  results.set place (tasks[place]?.map f)

/-- The results of a batch of tasks. -/
def map {α β : Type} (pool : Pool) (batch : Nat) (f : α → β) (tasks : List α) : List β :=
  ((pool.order batch tasks.length).foldl (keep f tasks)
    (List.replicate tasks.length none)).filterMap id

end Pool
end ZeroRun
