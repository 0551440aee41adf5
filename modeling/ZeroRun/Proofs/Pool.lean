import Mathlib
import ZeroRun.Search

/-! Workers change nothing. Whatever order the tasks of a batch are completed in, each place holds
the result of its own task at the end, so a search finds the same as with one worker. -/
namespace ZeroRun

namespace Pool
variable {α β : Type} {f : α → β} {tasks : List α}

/-- A place holds the result of its task if the task has been completed, and what was there
otherwise. -/
theorem getElem?_foldl_keep {results : List (Option β)} (size : results.length = tasks.length)
    (order : List Nat) (place : Nat) (inside : place < tasks.length) :
    (order.foldl (keep f tasks) results)[place]? =
      if place ∈ order then some (tasks[place]?.map f) else results[place]? := by
  induction order generalizing results with
  | nil => simp
  | cons first order ih =>
    rw [List.foldl_cons, ih (by rw [keep, List.length_set, size])]
    by_cases later : place ∈ order
    · simp [later]
    · by_cases here : first = place
      · subst here
        simp [keep, size, inside, later]
      · simp [keep, List.getElem?_set_ne here, later, Ne.symm here]

theorem length_foldl_keep (order : List Nat) (results : List (Option β)) :
    (order.foldl (keep f tasks) results).length = results.length := by
  induction order generalizing results with
  | nil => rfl
  | cons first order ih => rw [List.foldl_cons, ih, keep, List.length_set]

/-- The results come in the order of the tasks. -/
theorem map_eq (pool : Pool) (batch : Nat) (f : α → β) (tasks : List α) :
    pool.map batch f tasks = tasks.map f := by
  have filled : (pool.order batch tasks.length).foldl (keep f tasks)
      (List.replicate tasks.length none) = tasks.map fun task => some (f task) := by
    apply List.ext_getElem?
    intro place
    by_cases inside : place < tasks.length
    · have completed : place ∈ pool.order batch tasks.length :=
        (pool.complete batch tasks.length).mem_iff.2 (List.mem_range.2 inside)
      rw [getElem?_foldl_keep List.length_replicate _ _ inside, if_pos completed]
      simp [inside]
    · rw [List.getElem?_eq_none, List.getElem?_eq_none]
      · rw [List.length_map]
        omega
      · rw [length_foldl_keep, List.length_replicate]
        omega
  rw [map, filled, List.filterMap_map]
  exact congrFun List.filterMap_eq_map tasks

end Pool

namespace CandidateSearch
variable {sys : CounterSystem} (search : CandidateSearch sys)

/-- A layer is expanded node by node. -/
theorem flatten_expandLayer (layer : Nat) (frontier : List Node) :
    (search.expandLayer layer frontier).flatten = frontier.flatMap search.children := by
  rw [expandLayer, Pool.map_eq, ite_self, List.flatMap_def]

theorem scan_of_workers (workers : Int) (pool : Pool) (visited : Visited) (nodes kept : List Node) :
    { search with workers, pool }.scan visited nodes kept = search.scan visited nodes kept := by
  induction nodes generalizing visited kept with
  | nil => rfl
  | cons node nodes ih =>
    rw [scan, scan, ih, ih]
    rfl

theorem explore_of_workers (workers : Int) (pool : Pool) (layers : Nat) (visited : Visited)
    (frontier : List Node) (length : Nat) :
    { search with workers, pool }.explore layers visited frontier length =
      search.explore layers visited frontier length := by
  induction layers generalizing visited frontier length with
  | zero => rfl
  | succ layers ih =>
    rw [explore, explore, flatten_expandLayer, flatten_expandLayer]
    simp only [scan_of_workers, ih]
    rfl

/-- A search comes to the same end whatever the workers do. -/
theorem run_of_workers (workers : Int) (pool : Pool) :
    { search with workers, pool }.run = search.run := by
  simp only [run, explore_of_workers]
  rfl

end CandidateSearch
end ZeroRun
