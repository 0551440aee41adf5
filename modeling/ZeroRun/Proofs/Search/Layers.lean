import Mathlib
import ZeroRun.Proofs.Pool
import ZeroRun.Proofs.Sequence
import ZeroRun.Run

/-! The search, layer by layer, for any root from which words lead to product states. The layer
after `n` letters holds, in lexicographic order, the least word of length `n` for every state that
no shorter word finds. So the first goal that comes up carries the least word to a goal, and when
nothing new comes up there is none. -/
namespace ZeroRun

namespace CandidateSearch
variable {sys : CounterSystem} {search : CandidateSearch sys} {root s t : ProductState}
  {u word : Word}

/-- The word leads from the root to a product state. -/
inductive Reads (search : CandidateSearch sys) (root : ProductState) :
    Word → ProductState → Prop where
  | nil : search.Reads root [] root
  | concat {word : Word} {s t : ProductState} (letter : Int) (reads : search.Reads root word s)
      (next : (letter, t) ∈ search.successors s) : search.Reads root (word ++ [letter]) t

theorem reads_nil_iff : search.Reads root [] t ↔ t = root := by
  constructor
  · intro reads
    generalize spelled : ([] : Word) = word at reads
    cases reads with
    | nil => rfl
    | concat => simp at spelled
  · rintro rfl
    exact .nil

theorem reads_concat_iff {letter : Int} :
    search.Reads root (word ++ [letter]) t ↔
      ∃ s, search.Reads root word s ∧ (letter, t) ∈ search.successors s := by
  constructor
  · intro reads
    generalize spelled : word ++ [letter] = whole at reads
    cases reads with
    | nil => simp at spelled
    | concat letter reads next =>
      obtain ⟨rfl, last⟩ := List.append_inj' spelled rfl
      obtain rfl := (List.cons.inj last).1
      exact ⟨_, reads, next⟩
  · rintro ⟨s, reads, next⟩
    exact .concat letter reads next

/-- A non-empty word no longer than `n` leads to the state. -/
def Within (search : CandidateSearch sys) (root : ProductState) (n : Nat) (s : ProductState) : Prop :=
  ∃ word, word ≠ [] ∧ word.length ≤ n ∧ search.Reads root word s

/-- If one letter more finds no new state, then no number of letters does. -/
theorem within_of_closed {n : Nat}
    (closed : ∀ s, search.Within root (n + 1) s → search.Within root n s)
    (ne : word ≠ []) (reads : search.Reads root word s) : search.Within root n s := by
  induction reads with
  | nil => exact absurd rfl ne
  | @concat word s t letter reads next ih =>
    refine closed t ?_
    by_cases empty : word = []
    · subst empty
      exact ⟨[letter], by simp, by simp, .concat letter reads next⟩
    · obtain ⟨u, -, short, reads⟩ := ih empty
      exact ⟨u ++ [letter], by simp, by simpa using short, .concat letter reads next⟩

/-! ## Scanning a layer -/

/-- A scan stops at the first new goal. -/
theorem scan_goal {visited after : Visited} {nodes kept : List Node} {node : Node}
    (stopped : search.scan visited nodes kept = .goal node after) :
    ∃ earlier later, nodes = earlier ++ node :: later ∧ search.isGoal node.1 = true ∧
      ∀ other ∈ earlier, other.1 ∈ visited ∨ search.isGoal other.1 = false := by
  induction nodes generalizing visited kept with
  | nil => cases stopped
  | cons first nodes ih =>
    rw [scan] at stopped
    split at stopped
    · rename_i known
      obtain ⟨earlier, later, rfl, goal, passed⟩ := ih stopped
      refine ⟨first :: earlier, later, rfl, goal, fun other mem => ?_⟩
      rcases List.mem_cons.1 mem with rfl | mem
      · exact .inl (Std.HashSet.mem_iff_contains.2 known)
      · exact passed other mem
    · split at stopped
      · rename_i goal
        cases stopped
        exact ⟨[], nodes, rfl, goal, by simp⟩
      · rename_i noGoal
        obtain ⟨earlier, later, rfl, goal, passed⟩ := ih stopped
        refine ⟨first :: earlier, later, rfl, goal, fun other mem => ?_⟩
        rcases List.mem_cons.1 mem with rfl | mem
        · exact .inr (by simpa using noGoal)
        · rcases passed other mem with known | none
          · rcases Std.HashSet.mem_insert.1 known with same | known
            · rw [eq_of_beq same] at noGoal
              exact .inr (by simpa using noGoal)
            · exact .inl known
          · exact .inr none

/-- What a scan that meets no goal leaves: the first node of each new state. -/
structure Scanned (search : CandidateSearch sys) (visited : Visited) (nodes fresh : List Node)
    (after : Visited) : Prop where
  mem_after : ∀ s, s ∈ after ↔ s ∈ visited ∨ ∃ node ∈ nodes, node.1 = s
  no_goal : ∀ s ∈ after, s ∈ visited ∨ search.isGoal s = false
  sublist : fresh.Sublist nodes
  covers : ∀ node ∈ nodes, node.1 ∈ visited ∨
    ∃ first ∈ fresh, first.1 = node.1 ∧ (first = node ∨ [first, node].Sublist nodes)
  size : after.size = visited.size + fresh.length

theorem Scanned.skip {visited after : Visited} {nodes fresh : List Node} {node : Node}
    (known : node.1 ∈ visited) (scanned : search.Scanned visited nodes fresh after) :
    search.Scanned visited (node :: nodes) fresh after := by
  refine ⟨fun s => ?_, scanned.no_goal, scanned.sublist.cons _, fun other mem => ?_, scanned.size⟩
  · rw [scanned.mem_after]
    constructor
    · rintro (old | ⟨other, mem, same⟩)
      · exact .inl old
      · exact .inr ⟨other, List.mem_cons_of_mem _ mem, same⟩
    · rintro (old | ⟨other, mem, rfl⟩)
      · exact .inl old
      · rcases List.mem_cons.1 mem with rfl | mem
        · exact .inl known
        · exact .inr ⟨other, mem, rfl⟩
  · rcases List.mem_cons.1 mem with rfl | mem
    · exact .inl known
    · rcases scanned.covers other mem with old | ⟨first, inside, same, before⟩
      · exact .inl old
      · exact .inr ⟨first, inside, same, before.imp_right (·.cons _)⟩

theorem Scanned.keep {visited after : Visited} {nodes fresh : List Node} {node : Node}
    (unknown : node.1 ∉ visited) (none : search.isGoal node.1 = false)
    (scanned : search.Scanned (visited.insert node.1) nodes fresh after) :
    search.Scanned visited (node :: nodes) (node :: fresh) after := by
  have inserted : ∀ s, s ∈ visited.insert node.1 ↔ node.1 = s ∨ s ∈ visited := by
    simp [Std.HashSet.mem_insert]
  refine ⟨fun s => ?_, fun s mem => ?_, scanned.sublist.cons_cons _, fun other mem => ?_, ?_⟩
  · rw [scanned.mem_after, inserted]
    simp only [List.mem_cons, exists_eq_or_imp]
    tauto
  · rcases scanned.no_goal s mem with old | new
    · rcases (inserted s).1 old with rfl | old
      · exact .inr none
      · exact .inl old
    · exact .inr new
  · rcases List.mem_cons.1 mem with rfl | mem
    · exact .inr ⟨other, List.mem_cons_self, rfl, .inl rfl⟩
    · rcases scanned.covers other mem with old | ⟨first, inside, same, before⟩
      · rcases (inserted _).1 old with same | old
        · refine .inr ⟨node, List.mem_cons_self, same, .inr ?_⟩
          exact (List.singleton_sublist.2 mem).cons_cons node
        · exact .inl old
      · exact .inr ⟨first, List.mem_cons_of_mem _ inside, same, before.imp_right (·.cons _)⟩
  · rw [scanned.size, Std.HashSet.size_insert, if_neg unknown, List.length_cons]
    omega

theorem scan_layer {visited after : Visited} {nodes kept next : List Node}
    (passed : search.scan visited nodes kept = .layer next after) :
    ∃ fresh, next = kept.reverse ++ fresh ∧ search.Scanned visited nodes fresh after := by
  induction nodes generalizing visited kept with
  | nil =>
    cases passed
    exact ⟨[], by simp, by simp, fun s mem => .inl mem, .slnil, by simp, by simp⟩
  | cons node nodes ih =>
    rw [scan] at passed
    split at passed
    · rename_i known
      obtain ⟨fresh, rfl, scanned⟩ := ih passed
      exact ⟨fresh, rfl, scanned.skip (Std.HashSet.mem_iff_contains.2 known)⟩
    · rename_i unknown
      split at passed
      · cases passed
      · rename_i noGoal
        obtain ⟨fresh, rfl, scanned⟩ := ih passed
        exact ⟨node :: fresh, by simp,
          scanned.keep (mt Std.HashSet.mem_iff_contains.1 unknown) (by simpa using noGoal)⟩

/-! ## The layers -/

/-- Wherever words lead, transitions come in the order of their indices. -/
def Sorted (search : CandidateSearch sys) (root : ProductState) : Prop :=
  ∀ word s, search.Reads root word s → (search.successors s).Pairwise fun a b => a.1 < b.1

/-- Nodes in the order of their words. -/
def Ordered (nodes : List Node) : Prop :=
  nodes.Pairwise fun a b => a.2.reverse < b.2.reverse

/-- What holds of a list of nodes that stands for all words of length `n`: each node carries a word
that leads to it, the words ascend, and every word of this length leads to a state that a shorter
word finds too, or to one with a node whose word does not come later. -/
structure Covering (search : CandidateSearch sys) (root : ProductState) (n : Nat)
    (nodes : List Node) : Prop where
  reads : ∀ node ∈ nodes, node.2.length = n ∧ search.Reads root node.2.reverse node.1
  ordered : Ordered nodes
  least : ∀ word s, word.length = n → search.Reads root word s →
    (∃ m < n, search.Within root m s) ∨ ∃ node ∈ nodes, node.1 = s ∧ ¬ word < node.2.reverse

theorem covering_root : search.Covering root 0 [(root, [])] := by
  refine ⟨by simpa using .nil, by simp [Ordered], fun word s empty reads => .inr ?_⟩
  obtain rfl := List.length_eq_zero_iff.1 empty
  exact ⟨_, List.mem_singleton.2 rfl, (reads_nil_iff.1 reads).symm, by simp⟩

/-- The children of a layer stand for all words with one letter more, if transitions come in the
order of indices. -/
theorem Covering.children {n : Nat} {frontier : List Node} (sorted : search.Sorted root)
    (covering : search.Covering root n frontier) :
    search.Covering root (n + 1) (frontier.flatMap search.children) := by
  refine ⟨fun node mem => ?_, ?_, fun word s long reads => ?_⟩
  · obtain ⟨parent, inside, mem⟩ := List.mem_flatMap.1 mem
    obtain ⟨⟨letter, t⟩, next, rfl⟩ := List.mem_map.1 mem
    obtain ⟨long, reads⟩ := covering.reads parent inside
    exact ⟨by simp [long], by simpa using .concat letter reads next⟩
  · refine List.pairwise_flatMap.2 ⟨fun parent inside => ?_, ?_⟩
    · rw [CandidateSearch.children, List.pairwise_map]
      refine (sorted _ _ (covering.reads parent inside).2).imp fun less => ?_
      simpa [concat_lt_concat_iff] using less
    · refine covering.ordered.imp_of_mem fun {a b} first second less => ?_
      intro x left y right
      obtain ⟨⟨i, s⟩, -, rfl⟩ := List.mem_map.1 left
      obtain ⟨⟨j, t⟩, -, rfl⟩ := List.mem_map.1 right
      have same : a.2.reverse.length = b.2.reverse.length := by
        simp [(covering.reads a first).1, (covering.reads b second).1]
      simpa [concat_lt_concat_iff same] using .inl less
  · obtain ⟨v, letter, rfl⟩ : ∃ v letter, word = v ++ [letter] := by
      rcases List.eq_nil_or_concat' word with rfl | ⟨v, letter, rfl⟩
      · cases long
      · exact ⟨v, letter, rfl⟩
    obtain ⟨t, reads, next⟩ := reads_concat_iff.1 reads
    have shorter : v.length = n := by simpa using long
    rcases covering.least v t shorter reads with ⟨m, less, u, ne, short, reads⟩ | found
    · exact .inl ⟨m + 1, by omega, u ++ [letter], by simp, by simpa using short,
        .concat letter reads next⟩
    · obtain ⟨node, inside, rfl, notLater⟩ := found
      refine .inr ⟨(s, letter :: node.2), ?_, rfl, ?_⟩
      · exact List.mem_flatMap.2 ⟨node, inside, List.mem_map.2 ⟨(letter, s), next, rfl⟩⟩
      · have same : v.length = node.2.reverse.length := by
          simp [(covering.reads node inside).1, shorter]
        simpa [concat_lt_concat_iff same] using notLater

/-- The states found so far are those that non-empty words of length at most `n` lead to, and none
of them is a goal. -/
structure Found (search : CandidateSearch sys) (root : ProductState) (n : Nat)
    (visited : Visited) : Prop where
  mem_iff : ∀ s, s ∈ visited ↔ search.Within root n s
  no_goal : ∀ s ∈ visited, search.isGoal s = false

theorem found_empty : search.Found root 0 ∅ := by
  refine ⟨fun s => ?_, by simp⟩
  simp only [Std.HashSet.not_mem_empty, false_iff]
  rintro ⟨word, ne, short, -⟩
  exact ne (List.length_eq_zero_iff.1 (Nat.le_zero.1 short))

theorem Within.mono {m n : Nat} (le : m ≤ n) (within : search.Within root m s) :
    search.Within root n s := by
  obtain ⟨word, ne, short, reads⟩ := within
  exact ⟨word, ne, short.trans le, reads⟩

/-! ## Outcomes -/

/-- The word is not empty and leads to a goal. -/
def ReachesGoal (search : CandidateSearch sys) (root : ProductState) (word : Word) : Prop :=
  word ≠ [] ∧ ∃ s, search.Reads root word s ∧ search.isGoal s = true

/-- What an outcome says: the least word to a goal, within the limit; that there is none; or that
there is none within the limit. -/
def Settles (search : CandidateSearch sys) (admits : Word → Prop) : SearchStatus → Prop
  | .found word =>
    admits word ∧ (∀ limit, search.maxLength = some limit → word.length ≤ limit) ∧
      ∀ other, admits other → ¬ Shortlex other word
  | .exhausted => ∀ word, ¬ admits word
  | .truncated =>
    ∃ limit, search.maxLength = some limit ∧ ∀ word, admits word → limit < (word.length : Int)

/-- The state that words of length `n` lead to, but no shorter ones, the empty word apart. -/
structure FirstAt (search : CandidateSearch sys) (root : ProductState) (n : Nat)
    (s : ProductState) : Prop where
  reached : ∃ word, word.length = n ∧ search.Reads root word s
  not_before : ∀ word, word ≠ [] → search.Reads root word s → n ≤ word.length

/-- What the number of layers of an outcome says. It is the length of the word that was found. A
search that was cut off has gone as far as its limit allows, and one letter more leads to a state
that is new. -/
structure Accounts (search : CandidateSearch sys) (root : ProductState) (outcome : SearchOutcome) :
    Prop where
  found : ∀ word, outcome.status = .found word → outcome.layers = word.length
  further : outcome.status = .truncated → ∃ s, search.FirstAt root (outcome.layers + 1) s
  limited : outcome.status = .truncated → ∀ limit, search.maxLength = some limit → 0 ≤ limit →
    (outcome.layers : Int) = limit

theorem accounts_exhausted (search : CandidateSearch sys) (root : ProductState)
    (visited layers : Nat) : search.Accounts root ⟨.exhausted, visited, layers⟩ :=
  ⟨nofun, nofun, nofun⟩

theorem atLimit_iff {n : Nat} :
    search.atLimit n = true ↔ ∃ limit, search.maxLength = some limit ∧ limit ≤ n := by
  rw [atLimit]
  split <;> simp_all

theorem Found.not_isGoal {n : Nat} {visited : Visited} (found : search.Found root n visited)
    (mem : s ∈ visited) : ¬ search.isGoal s = true := by
  rw [found.no_goal s mem]
  simp

section Step
variable {n : Nat} {visited after : Visited} {nodes fresh : List Node}
  (found : search.Found root n visited) (covering : search.Covering root (n + 1) nodes)
include found covering

/-- A state that one letter more leads to has been found before or has a node. -/
theorem Found.mem_or_exists (within : search.Within root (n + 1) s) :
    s ∈ visited ∨ ∃ node ∈ nodes, node.1 = s := by
  obtain ⟨word, ne, short, reads⟩ := within
  rcases Nat.lt_or_eq_of_le short with shorter | long
  · exact .inl ((found.mem_iff s).2 ⟨word, ne, Nat.lt_succ_iff.1 shorter, reads⟩)
  · rcases covering.least word s long reads with ⟨m, less, within⟩ | ⟨node, inside, same, -⟩
    · exact .inl ((found.mem_iff s).2 (within.mono (Nat.lt_succ_iff.1 less)))
    · exact .inr ⟨node, inside, same⟩

omit found in
/-- The words of the nodes are not empty. -/
theorem Covering.within {node : Node} (mem : node ∈ nodes) :
    search.Within root (n + 1) node.1 := by
  obtain ⟨long, reads⟩ := covering.reads node mem
  refine ⟨node.2.reverse, ?_, by simp [long], reads⟩
  intro empty
  simp [List.reverse_eq_nil_iff.1 empty] at long

/-- A layer without a goal leads to the next one. -/
theorem Found.next (scanned : search.Scanned visited nodes fresh after) :
    search.Found root (n + 1) after ∧ search.Covering root (n + 1) fresh := by
  refine ⟨⟨fun s => ?_, fun s mem => ?_⟩, fun node mem => ?_, ?_, fun word s long reads => ?_⟩
  · rw [scanned.mem_after]
    constructor
    · rintro (old | ⟨node, mem, rfl⟩)
      · exact ((found.mem_iff s).1 old).mono (Nat.le_succ n)
      · exact covering.within mem
    · exact found.mem_or_exists covering
  · rcases scanned.no_goal s mem with old | none
    · exact found.no_goal s old
    · exact none
  · exact covering.reads node (scanned.sublist.subset mem)
  · exact covering.ordered.sublist scanned.sublist
  · rcases covering.least word s long reads with shorter | ⟨node, inside, rfl, notLater⟩
    · exact .inl shorter
    · rcases scanned.covers node inside with old | ⟨first, kept, same, before⟩
      · exact .inl ⟨n, Nat.lt_succ_self n, (found.mem_iff _).1 old⟩
      · refine .inr ⟨first, kept, same, fun earlier => notLater ?_⟩
        rcases before with rfl | before
        · exact earlier
        · have order := covering.ordered.sublist before
          exact List.lt_trans earlier (by simpa using order)

/-- The first goal of a layer carries the least word to a goal. -/
theorem Found.not_shortlex {node : Node} {kept : List Node}
    (stopped : search.scan visited nodes kept = .goal node after) (ne : word ≠ [])
    (reads : search.Reads root word s) (goal : search.isGoal s = true) :
    ¬ Shortlex word node.2.reverse := by
  obtain ⟨earlier, later, rfl, -, passed⟩ := scan_goal stopped
  have length := (covering.reads node (by simp)).1
  have unseen : ∀ {m}, m ≤ n → ¬ search.Within root m s := fun le within =>
    found.not_isGoal ((found.mem_iff s).2 (within.mono le)) goal
  rintro (shorter | ⟨same, less⟩)
  · exact unseen le_rfl ⟨word, ne, by simp [length] at shorter; omega, reads⟩
  · rcases covering.least word s (by simp [same, length]) reads with
      ⟨m, below, within⟩ | ⟨other, inside, rfl, notLater⟩
    · exact unseen (Nat.lt_succ_iff.1 below) within
    · -- Its node does not come later than the goal, and the scan has passed all earlier ones.
      rcases List.mem_append.1 inside with before | behind
      · rcases passed other before with old | none
        · exact unseen le_rfl ((found.mem_iff _).1 old)
        · rw [goal] at none
          cases none
      · refine notLater (?_ : word < other.2.reverse)
        rcases List.mem_cons.1 behind with rfl | behind
        · exact less
        · have order := (List.pairwise_append.1 covering.ordered).2.1
          exact List.lt_trans less ((List.pairwise_cons.1 order).1 other behind)

/-- If a layer brings up nothing new, all states have been found. -/
theorem Found.mem_of_all_visited (old : ∀ node ∈ nodes, node.1 ∈ visited) (ne : word ≠ [])
    (reads : search.Reads root word s) : s ∈ visited := by
  refine (found.mem_iff s).2 (within_of_closed (fun s within => ?_) ne reads)
  rw [← found.mem_iff]
  rcases found.mem_or_exists covering within with known | ⟨node, inside, rfl⟩
  · exact known
  · exact old node inside

theorem Found.settles_exhausted (old : ∀ node ∈ nodes, node.1 ∈ visited) :
    search.Settles (search.ReachesGoal root) .exhausted := by
  rintro word ⟨ne, s, reads, goal⟩
  exact found.not_isGoal (found.mem_of_all_visited covering old ne reads) goal

omit covering in
theorem Found.settles_truncated (full : search.atLimit n = true) :
    search.Settles (search.ReachesGoal root) .truncated := by
  obtain ⟨limit, known, reached⟩ := atLimit_iff.1 full
  refine ⟨limit, known, fun word ⟨ne, s, reads, goal⟩ => ?_⟩
  by_contra short
  exact found.not_isGoal ((found.mem_iff s).2 ⟨word, ne, by omega, reads⟩) goal

theorem Found.settles_found {node : Node} {kept : List Node} (below : search.atLimit n = false)
    (stopped : search.scan visited nodes kept = .goal node after) :
    search.Settles (search.ReachesGoal root) (.found node.2.reverse) := by
  obtain ⟨earlier, later, rfl, goal, -⟩ := scan_goal stopped
  obtain ⟨length, reads⟩ := covering.reads node (by simp)
  refine ⟨⟨?_, node.1, reads, goal⟩, fun limit known => ?_, fun other ⟨ne, s, reads, goal⟩ => ?_⟩
  · intro nil
    simp [List.reverse_eq_nil_iff.1 nil] at length
  · by_contra exceeded
    rw [List.length_reverse, length] at exceeded
    have full := atLimit_iff.2 ⟨limit, known, (by omega : limit ≤ n)⟩
    rw [below] at full
    cases full
  · exact found.not_shortlex covering stopped ne reads goal

omit found in
theorem Covering.accounts_found {node : Node} {kept : List Node}
    (stopped : search.scan visited nodes kept = .goal node after) (size : Nat) :
    search.Accounts root ⟨.found node.2.reverse, size, n + 1⟩ := by
  obtain ⟨earlier, later, rfl, -, -⟩ := scan_goal stopped
  have length := (covering.reads node (by simp)).1
  refine ⟨fun word same => ?_, nofun, nofun⟩
  obtain rfl := SearchStatus.found.inj same
  simp [length]

theorem Found.accounts_truncated (full : search.atLimit n = true)
    (early : ∀ limit, search.maxLength = some limit → 0 ≤ limit → (n : Int) ≤ limit) {node : Node}
    (inside : node ∈ nodes) (new : node.1 ∉ visited) (size : Nat) :
    search.Accounts root ⟨.truncated, size, n⟩ := by
  obtain ⟨bound, known, reached⟩ := atLimit_iff.1 full
  obtain ⟨length, reads⟩ := covering.reads node inside
  refine ⟨nofun, fun _ => ⟨node.1, ⟨_, by simp [length], reads⟩, fun word ne leads => ?_⟩,
    fun _ limit same natural => ?_⟩
  · change n + 1 ≤ word.length
    by_contra shorter
    exact new ((found.mem_iff _).2 ⟨word, ne, by omega, leads⟩)
  · have below := early limit same natural
    obtain rfl := Option.some.inj (known.symm.trans same)
    exact le_antisymm below reached

end Step

/-! ## The whole search -/

/-- How the search ends from a layer on, however many layers there are to come. Either there is
nothing to go on from; or the limit has been reached, and one letter more would lead to a new state
or would not; or a goal comes up among the children; or none does, and the search goes on from those
of them that are new. -/
inductive Ends (search : CandidateSearch sys) :
    Visited → List Node → Nat → SearchOutcome → Prop where
  | dry {visited : Visited} {n : Nat} : search.Ends visited [] n ⟨.exhausted, visited.size, n⟩
  | cutOff {visited : Visited} {frontier : List Node} {n : Nat} (some : frontier ≠ [])
      (full : search.atLimit n = true)
      (fresh : ∃ node ∈ frontier.flatMap search.children, node.1 ∉ visited) :
      search.Ends visited frontier n ⟨.truncated, visited.size, n⟩
  | spent {visited : Visited} {frontier : List Node} {n : Nat} (some : frontier ≠ [])
      (full : search.atLimit n = true)
      (old : ∀ node ∈ frontier.flatMap search.children, node.1 ∈ visited) :
      search.Ends visited frontier n ⟨.exhausted, visited.size, n⟩
  | goal {visited after : Visited} {frontier : List Node} {n : Nat} {node : Node}
      (some : frontier ≠ []) (below : search.atLimit n = false)
      (stopped : search.scan visited (frontier.flatMap search.children) [] = .goal node after) :
      search.Ends visited frontier n ⟨.found node.2.reverse, after.size, n + 1⟩
  | onward {visited after : Visited} {frontier kept : List Node} {n : Nat} {outcome : SearchOutcome}
      (some : frontier ≠ []) (below : search.atLimit n = false)
      (passed : search.scan visited (frontier.flatMap search.children) [] = .layer kept after)
      (rest : search.Ends after kept (n + 1) outcome) : search.Ends visited frontier n outcome

/-- There are at most so many states that non-empty words lead to. -/
def AtMost (search : CandidateSearch sys) (root : ProductState) (bound : Nat) : Prop :=
  ∀ states : List ProductState, states.Nodup → (∀ s ∈ states, ∃ n, search.Within root n s) →
    states.length ≤ bound

theorem AtMost.size_le {bound : Nat} {visited : Visited} (atMost : search.AtMost root bound)
    (within : ∀ s ∈ visited, ∃ n, search.Within root n s) : visited.size ≤ bound := by
  rw [← Std.HashSet.length_toList]
  refine atMost visited.toList ?_ fun s mem => within s (by simpa using mem)
  exact Std.HashSet.distinct_toList.imp fun apart same => by simp [same] at apart

theorem Found.size_le {n bound : Nat} {visited : Visited} (found : search.Found root n visited)
    (atMost : search.AtMost root bound) : visited.size ≤ bound :=
  atMost.size_le fun s mem => ⟨n, (found.mem_iff s).1 mem⟩

/-- What holds when the search has come to a layer. Every layer but the last has found a new
state. -/
structure Stage (search : CandidateSearch sys) (root : ProductState) (n : Nat) (visited : Visited)
    (frontier : List Node) : Prop where
  found : search.Found root n visited
  covering : search.Covering root n frontier
  grown : frontier ≠ [] → n ≤ visited.size
  lagging : n ≤ visited.size + 1
  early : ∀ limit, search.maxLength = some limit → 0 ≤ limit → (n : Int) ≤ limit

theorem stage_root : search.Stage root 0 ∅ [(root, [])] :=
  ⟨found_empty, covering_root, by simp, by simp, by simp⟩

section Stages
variable {n bound layers : Nat} {visited after : Visited} {frontier kept : List Node}
  {outcome : SearchOutcome} (sorted : search.Sorted root)
  (stage : search.Stage root n visited frontier)
include sorted stage

theorem Stage.next (some : frontier ≠ []) (below : search.atLimit n = false)
    (passed : search.scan visited (frontier.flatMap search.children) [] = .layer kept after) :
    search.Stage root (n + 1) after kept := by
  obtain ⟨fresh, rfl, scanned⟩ := scan_layer passed
  obtain ⟨found, covering⟩ := stage.found.next (stage.covering.children sorted) scanned
  have size := scanned.size
  have before := stage.grown some
  refine ⟨found, covering, fun more => ?_, by omega, fun limit known natural => ?_⟩
  · have longer := List.length_pos_of_ne_nil (by simpa using more)
    omega
  · by_contra beyond
    have reached := atLimit_iff.2 ⟨limit, known, (by omega : limit ≤ n)⟩
    rw [below] at reached
    cases reached

/-- As many layers as there are states are enough for the search to end. -/
theorem Stage.ends_explore (atMost : search.AtMost root bound) (enough : bound < layers + n) :
    search.Ends visited frontier n (search.explore layers visited frontier n) := by
  induction layers generalizing visited frontier n with
  | zero =>
    have empty : frontier = [] := by
      by_contra some
      have := stage.grown some
      have := stage.found.size_le atMost
      omega
    subst empty
    exact .dry
  | succ layers ih =>
    rw [explore, flatten_expandLayer]
    by_cases empty : frontier = []
    · subst empty
      exact .dry
    · rw [if_neg (by simpa using empty)]
      cases full : search.atLimit n with
      | true =>
        simp only [if_true]
        split
        · rename_i fresh
          obtain ⟨node, mem, new⟩ := List.any_eq_true.1 fresh
          rw [Bool.not_eq_true', ← Bool.not_eq_true] at new
          exact .cutOff empty full ⟨node, mem, mt Std.HashSet.mem_iff_contains.1 new⟩
        · rename_i old
          refine .spent empty full fun node mem => ?_
          by_contra new
          refine old (List.any_eq_true.2 ⟨node, mem, ?_⟩)
          rw [Bool.not_eq_true', ← Bool.not_eq_true]
          exact mt Std.HashSet.mem_iff_contains.2 new
      | false =>
        simp only [Bool.false_eq_true, if_false]
        cases scanned : search.scan visited (frontier.flatMap search.children) [] with
        | goal node after => exact .goal empty full scanned
        | layer kept after =>
          exact .onward empty full scanned (ih (stage.next sorted empty full scanned) (by omega))

/-- However the search ends, its outcome settles which words lead to a goal, and its layers are
right. -/
theorem Stage.settles (ends : search.Ends visited frontier n outcome) :
    search.Settles (search.ReachesGoal root) outcome.status ∧ search.Accounts root outcome := by
  induction ends with
  | dry =>
    exact ⟨stage.found.settles_exhausted (stage.covering.children sorted) (by simp),
      accounts_exhausted ..⟩
  | cutOff _ full fresh =>
    obtain ⟨node, mem, new⟩ := fresh
    exact ⟨stage.found.settles_truncated full, stage.found.accounts_truncated
      (stage.covering.children sorted) full stage.early mem new _⟩
  | spent _ _ old =>
    exact ⟨stage.found.settles_exhausted (stage.covering.children sorted) old,
      accounts_exhausted ..⟩
  | goal _ below stopped =>
    have children := stage.covering.children sorted
    exact ⟨stage.found.settles_found children below stopped, children.accounts_found stopped _⟩
  | onward some below passed _ ih => exact ih (stage.next sorted some below passed)

end Stages

end CandidateSearch
end ZeroRun
