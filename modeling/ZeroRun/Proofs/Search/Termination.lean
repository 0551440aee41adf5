import Mathlib
import ZeroRun.Proofs.Search.Candidate

/-! The search ends, whether there is a limit or not, although there may be walks of any length:
every layer but the last finds a new product state, and of these there are only finitely many. Their
number bounds what the search visits, and with it the layers. -/
namespace ZeroRun.CandidateSearch

variable {sys : CounterSystem} {search : CandidateSearch sys} {root : ProductState}
  {visited after : Visited} {frontier : List Node} {n bound : Nat} {outcome other : SearchOutcome}

/-- The search ends in one way only. -/
theorem Ends.unique (ends : search.Ends visited frontier n outcome)
    (again : search.Ends visited frontier n other) : other = outcome := by
  induction ends with
  | dry =>
    cases again with
    | dry => rfl
    | cutOff some | spent some | goal some | onward some => exact absurd rfl some
  | cutOff some full fresh =>
    obtain ⟨node, mem, new⟩ := fresh
    cases again with
    | dry => exact absurd rfl some
    | cutOff => rfl
    | spent _ _ old => exact absurd (old node mem) new
    | goal _ below | onward _ below => simp [full] at below
  | spent some full old =>
    cases again with
    | dry => exact absurd rfl some
    | cutOff _ _ fresh =>
      obtain ⟨node, mem, new⟩ := fresh
      exact absurd (old node mem) new
    | spent => rfl
    | goal _ below | onward _ below => simp [full] at below
  | goal some below stopped =>
    cases again with
    | dry => exact absurd rfl some
    | cutOff _ full | spent _ full => simp [below] at full
    | goal _ _ same =>
      rw [stopped] at same
      cases same
      rfl
    | onward _ _ passed =>
      rw [stopped] at passed
      cases passed
  | onward some below passed _ ih =>
    cases again with
    | dry => exact absurd rfl some
    | cutOff _ full | spent _ full => simp [below] at full
    | goal _ _ stopped =>
      rw [passed] at stopped
      cases stopped
    | onward _ _ same rest =>
      rw [passed] at same
      cases same
      exact ih rest

/-! ## What the search visits -/

/-- A scan that stops at a goal has visited nothing but states of its nodes. -/
theorem visited_of_scan_goal {nodes kept : List Node} {node : Node}
    (stopped : search.scan visited nodes kept = .goal node after) :
    visited.size ≤ after.size ∧
      ∀ s ∈ after, s ∈ visited ∨ ∃ other ∈ nodes, other.1 = s := by
  induction nodes generalizing visited kept with
  | nil => cases stopped
  | cons first nodes ih =>
    have inserted : ∀ s ∈ visited.insert first.1,
        s ∈ visited ∨ ∃ other ∈ first :: nodes, other.1 = s := by
      intro s mem
      rcases Std.HashSet.mem_insert.1 mem with same | old
      · exact .inr ⟨first, List.mem_cons_self, eq_of_beq same⟩
      · exact .inl old
    have larger : visited.size ≤ (visited.insert first.1).size := Std.HashSet.size_le_size_insert
    rw [scan] at stopped
    split at stopped
    · obtain ⟨size, mem_after⟩ := ih stopped
      refine ⟨size, fun s mem => (mem_after s mem).imp_right ?_⟩
      rintro ⟨other, inside, same⟩
      exact ⟨other, List.mem_cons_of_mem _ inside, same⟩
    · split at stopped
      · cases stopped
        exact ⟨larger, inserted⟩
      · obtain ⟨size, mem_after⟩ := ih stopped
        refine ⟨larger.trans size, fun s mem => ?_⟩
        rcases mem_after s mem with old | ⟨other, inside, same⟩
        · exact inserted s old
        · exact .inr ⟨other, List.mem_cons_of_mem _ inside, same⟩

/-- However the search ends, it has visited no more states than there are, and all its layers but
one have added to them. -/
theorem Stage.bounded (sorted : search.Sorted root) (atMost : search.AtMost root bound)
    (stage : search.Stage root n visited frontier)
    (ends : search.Ends visited frontier n outcome) :
    outcome.visited ≤ bound ∧ outcome.layers ≤ outcome.visited + 1 := by
  induction ends with
  | dry | cutOff | spent => exact ⟨stage.found.size_le atMost, stage.lagging⟩
  | goal some _ stopped =>
    have children := stage.covering.children sorted
    obtain ⟨size, mem_after⟩ := visited_of_scan_goal stopped
    refine ⟨atMost.size_le fun s mem => ?_, Nat.succ_le_succ ((stage.grown some).trans size)⟩
    rcases mem_after s mem with old | ⟨node, inside, rfl⟩
    · exact ⟨_, (stage.found.mem_iff s).1 old⟩
    · exact ⟨_, children.within inside⟩
  | onward some below passed _ ih => exact ih (stage.next sorted some below passed)

/-- The bound, factor by factor. -/
theorem stateBound_eq (search : CandidateSearch sys) :
    (search.stateBound : Int) =
      search.language.grammar.nonterminals.length * search.space.modulus ^ search.space.dimension *
        (search.exclusions.trie.nodes.size + 1) *
        (search.exclusions.patterns.map fun pattern =>
          2 ^ (pattern.stem.length + pattern.cycle.length + pattern.tail.length + 3)).prod := by
  have two_le := search.space.two_le
  have power : (search.space.stateCount.toNat : Int) =
      search.space.modulus ^ search.space.dimension :=
    Int.toNat_of_nonneg (pow_nonneg (by omega) _)
  have loops : (((search.exclusions.patterns.map fun pattern => Nat.pow 2
      (pattern.stem.length + pattern.cycle.length + pattern.tail.length + 3)).foldr (· * ·) 1 : Nat) :
        Int) =
      (search.exclusions.patterns.map fun pattern =>
        2 ^ (pattern.stem.length + pattern.cycle.length + pattern.tail.length + 3)).prod := by
    rw [← List.prod_eq_foldr, Nat.cast_list_prod, List.map_map]
    simp [Function.comp_def]
  rw [← power, ← loops, Grammar.nonterminals, List.length_map, stateBound]
  push_cast
  rfl

/-- The search terminates, with a limit or without one. There is one outcome with which the layers
end, and no cap on their number decides it. The search has then visited at most as many states as
there are nonterminals, vectors of residues, nodes of the trie or places beyond it, and sets of
positions in each pattern, multiplied; and there were at most as many layers as visited states, and
one more. -/
theorem run_terminates (search : CandidateSearch sys)
    (fits : search.space.dimension = sys.dimension) (recorded : search.exclusions.Recorded) :
    ∃ outcome, search.run = .ok outcome ∧
      (∀ start, search.language.grammar.initialState = .ok (some start) → ∀ other,
        search.Ends ∅ [(⟨start, search.space.start, search.exclusions.start⟩, [])] 0 other ↔
          other = outcome) ∧
      (outcome.visited : Int) ≤
        search.language.grammar.nonterminals.length * search.space.modulus ^ sys.dimension *
          (search.exclusions.trie.nodes.size + 1) *
          (search.exclusions.patterns.map fun pattern =>
            2 ^ (pattern.stem.length + pattern.cycle.length + pattern.tail.length + 3)).prod ∧
      outcome.layers ≤ outcome.visited + 1 := by
  rw [← fits, ← stateBound_eq]
  by_cases finishes : sys.CanFinish sys.initial
  · obtain ⟨outcome, ok, ends⟩ := ends_run finishes fits recorded.sound
    obtain ⟨visited, layers⟩ := stage_root.bounded (sorted_root finishes)
      (atMost_stateBound fits recorded.sound finishes) ends
    refine ⟨outcome, ok, fun start begins other => ?_, Int.ofNat_le.2 visited, layers⟩
    rw [WalkLanguage.initialState_of_canFinish _ finishes] at begins
    cases begins
    constructor
    · exact ends.unique
    · rintro rfl
      exact ends
  · refine ⟨_, run_of_not_canFinish finishes, fun start begins => ?_, by simp, by simp⟩
    rw [WalkLanguage.initialState_of_not_canFinish _ finishes] at begins
    cases begins

/-- The search for candidates modulo two that may take any number of steps. -/
def withoutLimit (exclusions : ExclusionSet) : CandidateSearch CounterSystem.evenLoop where
  language := .of _
  space := ⟨2, 1, by decide⟩
  exclusions := exclusions
  maxLength := none

/-- There are walks of any length, none of which is a candidate, and yet the search ends. -/
theorem run_terminates_evenLoop :
    (∀ k, CounterSystem.evenLoop.Travels (.int 0) (List.replicate k 0 ++ [1]) (.int 1)) ∧
      ∃ outcome, (withoutLimit {}).run = .ok outcome ∧
        (withoutLimit {}).Ends ∅ [((withoutLimit {}).root, [])] 0 outcome ∧
        outcome.visited ≤ 4 * (withoutLimit {}).language.grammar.nonterminals.length ∧
        outcome.layers ≤ outcome.visited + 1 := by
  have walks := CounterSystem.travels_evenLoop
  obtain ⟨outcome, ok, ends, visited, layers⟩ := run_terminates (withoutLimit {}) rfl .empty
  refine ⟨walks, outcome, ok, ?_, ?_, layers⟩
  · exact (ends _ (WalkLanguage.initialState_of_canFinish _ ⟨_, walks 0⟩) _).2 rfl
  · have most : (outcome.visited : Int) ≤
        (withoutLimit {}).language.grammar.nonterminals.length * 2 ^ 1 * (1 + 1) * 1 := visited
    omega

end ZeroRun.CandidateSearch
