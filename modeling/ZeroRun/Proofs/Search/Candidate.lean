import Mathlib
import ZeroRun.Proofs.Effects
import ZeroRun.Proofs.Exclusion.Set
import ZeroRun.Proofs.Search.Layers
import ZeroRun.Proofs.WalkLanguage

/-! The search finds the least candidate, or tells that there is none. A candidate is a non-empty
walk from the initial to the final state whose effects sum to zero modulo the modulus and which no
exclusion covers. -/
namespace ZeroRun

/-- The walks that a search may find at a modulus. -/
structure CounterSystem.Candidate (sys : CounterSystem) (modulus : Int) (exclusions : ExclusionSet)
    (word : Word) : Prop where
  ne_nil : word ≠ []
  travels : sys.Travels sys.initial word sys.final
  divides : ∀ x ∈ sys.total word, modulus ∣ x
  uncovered : ¬ exclusions.Covers word

namespace CandidateSearch
variable {sys : CounterSystem} {search : CandidateSearch sys} {word : Word}

/-- The words that a search looks for. -/
structure IsCandidate (search : CandidateSearch sys) (word : Word) : Prop where
  ne_nil : word ≠ []
  travels : sys.Travels sys.initial word sys.final
  balanced : search.space.rejects (sys.effects word) = false
  allowed : search.exclusions.excludes word = false

/-- What a search looks for are the candidates. -/
theorem isCandidate_iff (fits : search.space.dimension = sys.dimension)
    (sound : search.exclusions.trie.Sound) :
    search.IsCandidate word ↔ sys.Candidate search.space.modulus search.exclusions word := by
  have start : search.space.start = sys.zero := by
    rw [ResidueSpace.start, fits]
    rfl
  have balanced : sys.Travels sys.initial word sys.final →
      (search.space.rejects (sys.effects word) = false ↔
        ∀ x ∈ sys.total word, search.space.modulus ∣ x) := by
    intro travels
    have widths := travels.known.width
    rw [← fits] at widths
    rw [search.space.rejects_eq_false_iff widths, start]
    rfl
  have allowed : search.exclusions.excludes word = false ↔ ¬ search.exclusions.Covers word := by
    rw [← ExclusionSet.excludes_iff sound, Bool.not_eq_true]
  constructor
  · rintro ⟨ne, travels, residues, free⟩
    exact ⟨ne, travels, (balanced travels).1 residues, allowed.1 free⟩
  · rintro ⟨ne, travels, divides, uncovered⟩
    exact ⟨ne, travels, (balanced travels).2 divides, allowed.2 uncovered⟩

/-! ## Where words lead -/

/-- Where the empty word stands. -/
def root (search : CandidateSearch sys) : ProductState :=
  ⟨[.nonterminal (walksFrom sys.initial)], search.space.start, search.exclusions.start⟩

/-- The word stands in a state of the system from which the final one can be reached, and has been
followed through the residues and the exclusions. -/
structure Stands (search : CandidateSearch sys) (word : Word) (s : ProductState) (state : Ident) :
    Prop where
  travels : sys.Travels sys.initial word state
  finishes : sys.CanFinish state
  derivation : s.derivation = [.nonterminal (walksFrom state)]
  residues : s.residues = search.space.run (sys.effects word)
  exclusion : word.foldlM search.exclusions.step search.exclusions.start = some s.exclusion

theorem Stands.useful {s : ProductState} {state : Ident} (stands : search.Stands word s state) :
    sys.Useful state :=
  ⟨⟨word, stands.travels⟩, stands.finishes⟩

theorem mem_successors {s t : ProductState} {state : Ident} {letter : Int}
    (stands : search.Stands word s state) :
    (letter, t) ∈ search.successors s ↔
      ∃ index move, (index, move) ∈ sys.onward state ∧ letter = (index : Nat) ∧
        t.derivation = [.nonterminal (walksFrom move.target)] ∧
        t.residues = search.space.step s.residues (effectOf sys letter) ∧
        search.exclusions.step s.exclusion letter = some t.exclusion := by
  rw [successors, stands.derivation, WalkLanguage.steps_walksFrom _ stands.useful]
  simp only [List.mem_filterMap, List.mem_map, Prod.exists, Option.map_eq_some_iff, Prod.mk.injEq]
  constructor
  · rintro ⟨_, _, ⟨index, move, inside, rfl, rfl⟩, exclusion, next, rfl, rfl⟩
    exact ⟨index, move, inside, rfl, rfl, rfl, next⟩
  · rintro ⟨index, move, inside, rfl, derivation, residues, next⟩
    refine ⟨_, _, ⟨index, move, inside, rfl, rfl⟩, t.exclusion, next, rfl, ?_⟩
    rw [← derivation, ← residues]

/-- A word leads from the root to where it stands. -/
theorem reads_root_iff (finishes : sys.CanFinish sys.initial) {s : ProductState} :
    search.Reads search.root word s ↔ ∃ state, search.Stands word s state := by
  induction word using List.reverseRecOn generalizing s with
  | nil =>
    rw [reads_nil_iff]
    constructor
    · rintro rfl
      exact ⟨sys.initial, .nil _, finishes, rfl, rfl, rfl⟩
    · rintro ⟨state, stands⟩
      obtain rfl := CounterSystem.Travels.nil_iff.1 stands.travels
      obtain ⟨derivation, residues, exclusion⟩ := s
      exact (ProductState.mk.injEq ..).mpr
        ⟨stands.derivation, stands.residues, (Option.some.inj stands.exclusion).symm⟩
  | append_singleton word letter ih =>
    have residues : search.space.run (sys.effects (word ++ [letter])) =
        search.space.step (search.space.run (sys.effects word)) (effectOf sys letter) := by
      simp [ResidueSpace.run, CounterSystem.effects]
    rw [reads_concat_iff]
    constructor
    · rintro ⟨before, reads, next⟩
      obtain ⟨state, stands⟩ := ih.1 reads
      obtain ⟨index, move, ahead, rfl, derivation, residue, exclusion⟩ :=
        (mem_successors stands).1 next
      obtain ⟨live, rfl, onward⟩ := CounterSystem.mem_onward.1 ahead
      refine ⟨move.target, ?_, onward, derivation, ?_, ?_⟩
      · exact CounterSystem.Travels.concat_iff.2 ⟨index, move, rfl, live, stands.travels, rfl⟩
      · rw [residue, residues, stands.residues]
      · rw [List.foldlM_append, stands.exclusion]
        simpa using exclusion
    · rintro ⟨state, stands⟩
      obtain ⟨index, move, rfl, live, travels, rfl⟩ :=
        CounterSystem.Travels.concat_iff.1 stands.travels
      have followed := stands.exclusion
      rw [List.foldlM_append, Option.bind_eq_bind, Option.bind_eq_some_iff] at followed
      obtain ⟨exclusion, before, last⟩ := followed
      obtain ⟨rest, arrives⟩ := stands.finishes
      have earlier : search.Stands word
          ⟨[.nonterminal (walksFrom move.source)], search.space.run (sys.effects word), exclusion⟩
          move.source :=
        ⟨travels, ⟨_, .cons index move live arrives⟩, rfl, rfl, before⟩
      refine ⟨_, ih.2 ⟨_, earlier⟩, (mem_successors earlier).2 ⟨index, move, ?_, rfl,
        stands.derivation, ?_, ?_⟩⟩
      · exact CounterSystem.mem_onward.2 ⟨live, rfl, stands.finishes⟩
      · rw [stands.residues, residues]
      · simpa using last

/-- Successors come in the order of indices. -/
theorem pairwise_successors {s : ProductState} {state : Ident}
    (stands : search.Stands word s state) :
    (search.successors s).Pairwise fun a b => a.1 < b.1 := by
  rw [successors, stands.derivation, WalkLanguage.steps_walksFrom _ stands.useful,
    List.pairwise_filterMap, List.pairwise_map]
  refine CounterSystem.pairwise_onward.imp fun {p q} less a first b second => ?_
  obtain ⟨-, -, rfl⟩ := Option.map_eq_some_iff.1 first
  obtain ⟨-, -, rfl⟩ := Option.map_eq_some_iff.1 second
  simpa using less

/-- A word to a goal is a candidate, and conversely. -/
theorem reachesGoal_iff (finishes : sys.CanFinish sys.initial) :
    search.ReachesGoal search.root word ↔ search.IsCandidate word := by
  simp only [ReachesGoal, reads_root_iff finishes, isGoal, Bool.and_eq_true, Bool.not_eq_true']
  constructor
  · rintro ⟨ne, s, ⟨state, stands⟩, ⟨complete, balanced⟩, allowed⟩
    rw [stands.derivation, WalkLanguage.completes_walksFrom _ stands.useful] at complete
    subst complete
    refine ⟨ne, stands.travels, ?_, ?_⟩
    · rwa [ResidueSpace.rejects, ← stands.residues]
    · rwa [ExclusionSet.excludes, stands.exclusion]
  · rintro ⟨ne, travels, balanced, allowed⟩
    rw [ExclusionSet.excludes] at allowed
    split at allowed
    · cases allowed
    · rename_i exclusion followed
      have stands : search.Stands word ⟨[.nonterminal (walksFrom sys.final)],
          search.space.run (sys.effects word), exclusion⟩ sys.final :=
        ⟨travels, ⟨[], .nil _⟩, rfl, rfl, followed⟩
      refine ⟨ne, _, ⟨_, stands⟩, ⟨?_, balanced⟩, allowed⟩
      exact (WalkLanguage.completes_walksFrom _ stands.useful).2 rfl

/-! ## How many product states there are -/

theorem length_sections {α : Type} (lists : List (List α)) :
    lists.sections.length = (lists.map List.length).prod := by
  induction lists with
  | nil => rfl
  | cons first lists ih =>
    simp [List.sections, List.length_flatMap, ih, Nat.mul_comm]

/-- All residue vectors. -/
def residueVectors (search : CandidateSearch sys) : List Counters :=
  (List.replicate search.space.dimension
    ((List.range search.space.modulus.toNat).map Int.ofNat)).sections

/-- All nodes of the trie of stems. -/
def trieNodes (search : CandidateSearch sys) : List TrieNode :=
  .free :: (List.range search.exclusions.trie.nodes.size).map .at

/-- All sets of positions in the loop patterns. -/
def loopStates (search : CandidateSearch sys) : List (List (List Position)) :=
  (search.exclusions.patterns.map fun pattern => pattern.positions.sublists).sections

/-- All product states that words may lead to. -/
def productStates (search : CandidateSearch sys) : List ProductState :=
  (((search.language.grammar.nonterminals ×ˢ search.residueVectors) ×ˢ search.trieNodes) ×ˢ
    search.loopStates).map fun p =>
      ⟨[.nonterminal p.1.1.1], p.1.1.2, ⟨p.1.2, p.2⟩⟩

theorem length_productStates : search.productStates.length = search.stateBound := by
  have two_le := search.space.two_le
  have power : search.space.stateCount = search.space.modulus ^ search.space.dimension := rfl
  have vectors : search.residueVectors.length = search.space.stateCount.toNat := by
    rw [residueVectors, length_sections, power]
    simp [Int.toNat_pow_of_nonneg (by omega : 0 ≤ search.space.modulus)]
  have loops : search.loopStates.length = (search.exclusions.patterns.map fun p =>
      2 ^ (p.stem.length + p.cycle.length + p.tail.length + 3)).prod := by
    rw [loopStates, length_sections, List.map_map]
    simp [Function.comp_def, List.length_sublists, LoopPattern.length_positions]
  have nodes : search.trieNodes.length = search.exclusions.trie.nodes.size + 1 := by
    simp [trieNodes]
  rw [productStates, stateBound, List.length_map, List.length_product, List.length_product,
    List.length_product, vectors, nodes, loops, Grammar.nonterminals, List.length_map,
    List.prod_eq_foldr]
  rfl

theorem run_mem_residueVectors {effects : List Counters}
    (widths : ∀ e ∈ effects, e.length = search.space.dimension) :
    search.space.run effects ∈ search.residueVectors := by
  obtain ⟨width, bounds⟩ := search.space.run_mem widths
  rw [residueVectors, List.mem_sections, List.forall₂_iff_get]
  refine ⟨by simpa using width, fun i inside _ => ?_⟩
  obtain ⟨nonneg, below⟩ := bounds _ (List.getElem_mem inside)
  simp only [List.get_eq_getElem, List.getElem_replicate, List.mem_map, List.mem_range]
  exact ⟨_, by omega, Int.toNat_of_nonneg nonneg⟩

theorem mem_trieNodes (sound : search.exclusions.trie.Sound) {node : TrieNode}
    (reached : word.foldlM search.exclusions.trie.step (.at 0) = some node) :
    node ∈ search.trieNodes := by
  rcases node with _ | number
  · exact List.mem_cons_self
  · refine List.mem_cons_of_mem _ (List.mem_map_of_mem (List.mem_range.2 ?_))
    exact sound.tree.inside (Trie.locate_of_foldlM_step reached)

theorem mem_loopStates (word : Word) :
    (search.exclusions.patterns.map fun pattern => word.foldl pattern.step pattern.start) ∈
      search.loopStates := by
  rw [loopStates, List.mem_sections, List.forall₂_map_left_iff, List.forall₂_map_right_iff,
    List.forall₂_same]
  exact fun pattern _ => List.mem_sublists.2 LoopPattern.foldl_step_sublist

theorem Stands.mem_productStates (fits : search.space.dimension = sys.dimension)
    (sound : search.exclusions.trie.Sound) {s : ProductState} {state : Ident}
    (stands : search.Stands word s state) : s ∈ search.productStates := by
  have known : walksFrom state ∈ search.language.grammar.nonterminals := by
    obtain ⟨rest, travels⟩ := stands.finishes
    rw [search.language.grammar_eq]
    exact Grammar.mem_nonterminals_of_derives
      ((CounterSystem.derives_trimmed_walks stands.useful).2 travels)
  have widths := stands.travels.known.width
  rw [← fits] at widths
  have followed := stands.exclusion
  rw [ExclusionSet.foldlM_step, Option.map_eq_some_iff] at followed
  obtain ⟨node, reached, same⟩ := followed
  refine List.mem_map.2 ⟨(((walksFrom state, _), node), _), List.mem_product.2
    ⟨List.mem_product.2 ⟨List.mem_product.2 ⟨known, run_mem_residueVectors widths⟩,
      mem_trieNodes sound reached⟩, mem_loopStates word⟩, ?_⟩
  obtain ⟨derivation, residues, exclusion⟩ := s
  exact (ProductState.mk.injEq ..).mpr ⟨stands.derivation.symm, stands.residues.symm, same⟩

theorem atMost_stateBound (fits : search.space.dimension = sys.dimension)
    (sound : search.exclusions.trie.Sound) (finishes : sys.CanFinish sys.initial) :
    search.AtMost search.root search.stateBound := by
  intro states nodup found
  rw [← length_productStates]
  refine (List.subperm_of_subset nodup fun s mem => ?_).length_le
  obtain ⟨n, word, -, -, reads⟩ := found s mem
  obtain ⟨state, stands⟩ := (reads_root_iff finishes).1 reads
  exact stands.mem_productStates fits sound

/-! ## The outcome -/

/-- Where no walk leads to the final state, there is nothing to search. -/
theorem run_of_not_canFinish (finishes : ¬ sys.CanFinish sys.initial) :
    search.run = .ok { status := .exhausted } := by
  rw [run, WalkLanguage.initialState_of_not_canFinish _ finishes]
  rfl

section Finishes
variable (finishes : sys.CanFinish sys.initial)
include finishes

theorem sorted_root : search.Sorted search.root := by
  intro word s reads
  obtain ⟨state, stands⟩ := (reads_root_iff finishes).1 reads
  exact pairwise_successors stands

/-- Otherwise the search ends, and the outcome is that with which it ends. -/
theorem ends_run (fits : search.space.dimension = sys.dimension)
    (sound : search.exclusions.trie.Sound) :
    ∃ outcome, search.run = .ok outcome ∧ search.Ends ∅ [(search.root, [])] 0 outcome := by
  refine ⟨search.explore (search.stateBound + 2) ∅ [(search.root, [])] 0, ?_, ?_⟩
  · rw [run, WalkLanguage.initialState_of_canFinish _ finishes]
    rfl
  · exact stage_root.ends_explore (sorted_root finishes)
      (atMost_stateBound fits sound finishes) (by omega)

end Finishes

/-- A search always has an outcome, and the outcome settles which words are candidates. -/
theorem settles_run (search : CandidateSearch sys) (fits : search.space.dimension = sys.dimension)
    (sound : search.exclusions.trie.Sound) :
    ∃ outcome, search.run = .ok outcome ∧
      search.Settles (sys.Candidate search.space.modulus search.exclusions) outcome.status ∧
        search.Accounts search.root outcome := by
  have candidates : search.IsCandidate = sys.Candidate search.space.modulus search.exclusions :=
    funext fun word => propext (isCandidate_iff fits sound)
  by_cases finishes : sys.CanFinish sys.initial
  · obtain ⟨outcome, ok, ends⟩ := ends_run finishes fits sound
    have same : search.ReachesGoal search.root = search.IsCandidate :=
      funext fun word => propext (reachesGoal_iff finishes)
    refine ⟨outcome, ok, ?_⟩
    rw [← candidates, ← same]
    exact stage_root.settles (sorted_root finishes) ends
  · refine ⟨_, run_of_not_canFinish finishes, fun word candidate => ?_, accounts_exhausted ..⟩
    exact finishes ⟨word, candidate.travels⟩

/-- The search is exact. It finds a word exactly if there is a candidate within the limit, and then
the first of all candidates, after as many layers as the word has letters. It is exhausted only if
there is no candidate at all, and cut off only at a limit within which there is none, while one
letter more leads to a product state that no non-empty word within the limit leads to. -/
theorem run_exact (search : CandidateSearch sys) (fits : search.space.dimension = sys.dimension)
    (recorded : search.exclusions.Recorded)
    (natural : ∀ limit, search.maxLength = some limit → 0 ≤ limit) :
    ∃ outcome, search.run = .ok outcome ∧
      ((∃ word, outcome.status = .found word) ↔
        ∃ word, sys.Candidate search.space.modulus search.exclusions word ∧
          ∀ limit, search.maxLength = some limit → word.length ≤ limit) ∧
      (∀ word, outcome.status = .found word →
        sys.Candidate search.space.modulus search.exclusions word ∧
          (∀ other, sys.Candidate search.space.modulus search.exclusions other →
            ¬ Shortlex other word) ∧
          outcome.layers = word.length) ∧
      (outcome.status = .exhausted →
        ∀ word, ¬ sys.Candidate search.space.modulus search.exclusions word) ∧
      (outcome.status = .truncated →
        ∃ limit : Nat, search.maxLength = some (limit : Int) ∧
          (∀ word, sys.Candidate search.space.modulus search.exclusions word →
            limit < word.length) ∧
          ∃ s, search.FirstAt search.root (limit + 1) s) := by
  obtain ⟨outcome, ok, settled, accounts⟩ := settles_run search fits recorded.sound
  refine ⟨outcome, ok, ⟨?_, ?_⟩, ?_, ?_, ?_⟩
  · rintro ⟨word, status⟩
    rw [status] at settled
    exact ⟨word, settled.1, settled.2.1⟩
  · rintro ⟨word, candidate, within⟩
    cases status : outcome.status with
    | found word => exact ⟨word, rfl⟩
    | exhausted =>
      rw [status] at settled
      exact absurd candidate (settled word)
    | truncated =>
      rw [status] at settled
      obtain ⟨limit, known, beyond⟩ := settled
      exact absurd (within limit known) (not_le.2 (beyond word candidate))
  · intro word status
    have layers := accounts.found word status
    rw [status] at settled
    exact ⟨settled.1, settled.2.2, layers⟩
  · intro status
    rw [status] at settled
    exact settled
  · intro status
    have new := accounts.further status
    have limited := accounts.limited status
    rw [status] at settled
    obtain ⟨limit, known, beyond⟩ := settled
    have same := limited limit known (natural limit known)
    refine ⟨outcome.layers, same ▸ known, fun word candidate => ?_, new⟩
    have := beyond word candidate
    omega

open CounterSystem (downOrUp travels_downOrUp_iff) in
theorem candidate_downOrUp_iff {exclusions : ExclusionSet} :
    downOrUp.Candidate 3 exclusions word ↔ word ∈ [[0, 2], [1, 3]] ∧ ¬ exclusions.Covers word := by
  constructor
  · intro candidate
    have mem := travels_downOrUp_iff.1 candidate.travels
    have divides := candidate.divides
    refine ⟨?_, candidate.uncovered⟩
    fin_cases mem
    · decide
    · exact absurd divides (by decide)
    · exact absurd divides (by decide)
    · decide
  · rintro ⟨mem, uncovered⟩
    fin_cases mem
    · exact ⟨by decide, travels_downOrUp_iff.2 (by decide), by decide, uncovered⟩
    · exact ⟨by decide, travels_downOrUp_iff.2 (by decide), by decide, uncovered⟩

/-- The search for candidates modulo three that take at most two steps. -/
def withinTwoSteps (exclusions : ExclusionSet) : CandidateSearch CounterSystem.downOrUp where
  language := .of _
  space := ⟨3, 1, by decide⟩
  exclusions := exclusions
  maxLength := some 2

/-- After the step down has been excluded, the walk that goes up first is found. -/
theorem run_exact_downOrUp : ∃ exclusions outcome,
    ({} : ExclusionSet).recordStem [0] = .ok (true, exclusions) ∧
      (withinTwoSteps exclusions).run = .ok outcome ∧ outcome.status = .found [1, 3] ∧
        outcome.layers = 2 := by
  have uncovered : ¬ ({} : ExclusionSet).Covers [0] := by
    simp [ExclusionSet.Covers]
  obtain ⟨exclusions, recorded, -, stems, patterns⟩ :=
    ExclusionSet.recordStem_of_not_covers Trie.sound_empty (by decide) (List.prefix_refl _)
      uncovered
  have covers : ∀ word, exclusions.Covers word ↔ [0] <+: word := by
    simp [ExclusionSet.Covers, stems, patterns]
  obtain ⟨outcome, ok, finds, found, -⟩ := run_exact (withinTwoSteps exclusions) rfl
    (.stem .empty recorded) fun limit known => by cases known; decide
  have upFirst : CounterSystem.downOrUp.Candidate 3 exclusions [1, 3] :=
    candidate_downOrUp_iff.2 ⟨by decide, by simp [covers]⟩
  obtain ⟨word, status⟩ := finds.2 ⟨[1, 3], upFirst, fun limit known => by cases known; decide⟩
  obtain ⟨candidate, -, layers⟩ := found word status
  obtain ⟨mem, uncovered⟩ := candidate_downOrUp_iff.1 candidate
  fin_cases mem
  · exact absurd ((covers _).2 (by decide)) uncovered
  · exact ⟨exclusions, outcome, recorded, ok, status, layers⟩

end CandidateSearch
end ZeroRun
