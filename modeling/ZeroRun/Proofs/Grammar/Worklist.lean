import Mathlib
import ZeroRun.Proofs.Grammar.Enumerate

/-! Unfolding with a queue. The states are looked at one by one in the order in which they came up,
and what a state unfolds to joins the queue unless it has come up before. The loop knows no limit:
it ends when all states of the queue have been looked at. In a grammar that is not left-recursive
it always ends, with the list that unfolding level by level finds. -/
namespace ZeroRun

/-! ## Queues -/

section Queues
variable {α : Type} [DecidableEq α] {next : α → List α} {queue latest result : List α}
  {position : Nat}

/-- The queue is gone through from a position on until its end is reached, and `result` is then the
whole queue. What follows an item is added at the end unless it is there. -/
inductive WorksOff (next : α → List α) : (queue : List α) → (position : Nat) → List α → Prop where
  | ends {queue : List α} {position : Nat} (passed : queue[position]? = none) :
      WorksOff next queue position queue
  | looks {queue result : List α} {position : Nat} {item : α}
      (here : queue[position]? = some item)
      (rest : WorksOff next ((next item).foldl Grammar.addNew queue) (position + 1) result) :
      WorksOff next queue position result

/-- The loop ends in one way only. -/
theorem WorksOff.unique {other : List α} (works : WorksOff next queue position result)
    (again : WorksOff next queue position other) : other = result := by
  induction works with
  | ends passed =>
    cases again with
    | ends => rfl
    | looks here =>
      rw [passed] at here
      cases here
  | looks here _ ih =>
    cases again with
    | ends passed =>
      rw [here] at passed
      cases passed
    | looks same rest =>
      rw [here] at same
      cases same
      exact ih rest

theorem foldl_addNew_next (item : α) (queue : List α) :
    (next item).foldl Grammar.addNew queue = queue ++ newFrom next queue [item] := by
  rw [foldl_addNew, newFrom, List.flatMap_singleton]

theorem nodup_foldl_addNew {items : List α} (nodup : items.Nodup) (new : List α) :
    (new.foldl Grammar.addNew items).Nodup := by
  rw [foldl_addNew]
  refine nodup.append ((nodup_distinct new).filter _) fun x old fresh => ?_
  exact of_decide_eq_true (List.mem_filter.1 fresh).2 old

/-- Nothing comes up twice. -/
theorem WorksOff.nodup (works : WorksOff next queue position result) (nodup : queue.Nodup) :
    result.Nodup := by
  induction works with
  | ends => exact nodup
  | looks _ _ ih => exact ih (nodup_foldl_addNew nodup _)

/-- What is new from several items is what is new from the first, and then from the others. -/
theorem newFrom_cons (item : α) (found latest : List α) :
    newFrom next found (item :: latest) =
      newFrom next found [item] ++ newFrom next (found ++ newFrom next found [item]) latest := by
  apply (List.append_right_inj found).1
  rw [← List.append_assoc, newFrom, newFrom, newFrom, ← foldl_addNew, List.flatMap_singleton,
    ← foldl_addNew, ← foldl_addNew, List.flatMap_cons, List.foldl_append]

/-- Looking at items that follow each other in the queue adds what is new from all of them. -/
theorem WorksOff.through (first : latest <+: queue.drop position)
    (rest : WorksOff next (queue ++ newFrom next queue latest) (position + latest.length) result) :
    WorksOff next queue position result := by
  induction latest generalizing queue position with
  | nil => simpa [newFrom, distinct] using rest
  | cons item latest ih =>
    obtain ⟨behind, split⟩ := first
    have here : queue[position]? = some item := by
      rw [← List.head?_drop, ← split]
      rfl
    refine .looks here ?_
    rw [foldl_addNew_next]
    apply ih
    -- What the first item adds stands behind all others, so these still follow each other.
    · have onward : queue.drop (position + 1) = latest ++ behind := by
        rw [← List.drop_drop, ← split]
        rfl
      obtain ⟨inside, -⟩ := List.getElem?_eq_some_iff.1 here
      rw [List.drop_append_of_le_length inside, onward, List.append_assoc]
      exact List.prefix_append _ _
    · rw [newFrom_cons, ← List.append_assoc] at rest
      rwa [List.length_cons, Nat.add_comm latest.length, ← Nat.add_assoc] at rest

/-- After a whole level, the next one waits at the end of the queue. -/
theorem WorksOff.level {before : List α}
    (rest : WorksOff next (before ++ latest ++ newFrom next (before ++ latest) latest)
      (before ++ latest).length result) :
    WorksOff next (before ++ latest) before.length result := by
  apply WorksOff.through
  · rw [List.drop_left]
  · rwa [List.length_append] at rest

/-- The loop ends with what spreading finds if each step descends, and not below zero. -/
theorem worksOff_spreadFrom {height : α → Nat}
    (falls : ∀ x, ∀ y ∈ next x, height y < height x) {rounds : Nat}
    (low : ∀ x ∈ latest, height x ≤ rounds) (before : List α) :
    WorksOff next (before ++ latest) before.length
      (spreadFrom next rounds (before ++ latest) latest) := by
  have stops : ∀ queue : List α, WorksOff next queue queue.length queue := fun queue =>
    .ends (List.getElem?_eq_none le_rfl)
  induction rounds generalizing before latest with
  | zero =>
    apply WorksOff.level
    rw [newFrom_eq_nil_of_falls falls low, List.append_nil]
    exact stops _
  | succ rounds ih =>
    apply WorksOff.level
    rw [spreadFrom_succ]
    split
    · rename_i nothing
      rw [nothing, List.append_nil]
      exact stops _
    · exact ih (fun y new => Nat.le_of_lt_succ (lt_of_mem_newFrom falls low new)) _

end Queues

/-! ## Unfolding -/

namespace Grammar
open Relation (ReflTransGen)

variable {τ : Type} [DecidableEq τ] {g : Grammar τ}

theorem worksOff_unfoldings (proper : g.Proper) (state : DerivationState τ) :
    WorksOff g.unfold [state] 0 (g.unfoldings state) := by
  rw [unfoldings, growUnfoldings_eq]
  refine worksOff_spreadFrom (fun x y step => Unfolds.cost_lt step proper) ?_ []
  simpa using g.cost_le_levelBound state

/-- In a grammar that passes the check, a state can be unfolded to finitely many states only,
whatever symbols it consists of. The loop that goes through the queue of these states comes to an
end, and in one way only: with the list of all that the state can be unfolded to, each once. -/
theorem unfolding_terminates (wellFormed : g.WellFormed)
    (accepted : g.checkLeftRecursion = .ok ()) (state : DerivationState τ) :
    {unfolded | ReflTransGen g.Unfolds state unfolded}.Finite ∧
    (∀ result, WorksOff g.unfold [state] 0 result ↔ result = g.unfoldings state) ∧
    (g.unfoldings state).Nodup ∧
    ∀ unfolded, unfolded ∈ g.unfoldings state ↔ ReflTransGen g.Unfolds state unfolded := by
  have proper := proper_of_checkLeftRecursion wellFormed accepted
  have works := worksOff_unfoldings proper state
  refine ⟨?_, fun result => ⟨works.unique, ?_⟩, works.nodup (List.nodup_singleton _),
    fun unfolded => mem_unfoldings proper⟩
  · apply (List.finite_toSet (g.unfoldings state)).subset
    intro unfolded path
    exact (mem_unfoldings proper).2 path
  · rintro rfl
    exact works

/-- A sequence before a nonterminal that the grammar does not know. Its first item makes the state
longer, and leaving the sequence out makes it shorter. -/
theorem unfolding_terminates_brackets :
    WorksOff brackets.unfold [[.nonterminal (.int 0), .nonterminal (.int 7)]] 0
      [[.nonterminal (.int 0), .nonterminal (.int 7)],
        [.nonterminal (.int 1), .nonterminal (.int 0), .nonterminal (.int 7)],
        [.nonterminal (.int 7)],
        [.terminal '(', .nonterminal (.int 0), .terminal ')', .nonterminal (.int 0),
          .nonterminal (.int 7)],
        [.terminal 'a', .nonterminal (.int 0), .nonterminal (.int 7)]] := by
  have wellFormed := built_brackets.wellFormed
  have accepted : brackets.checkLeftRecursion = .ok () := by cbv
  obtain ⟨-, ends, -⟩ := unfolding_terminates wellFormed accepted
    [.nonterminal (.int 0), .nonterminal (.int 7)]
  exact (ends _).2 (by decide +kernel)

end Grammar
end ZeroRun
