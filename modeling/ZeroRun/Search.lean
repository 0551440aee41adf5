import Std.Data.HashSet
import ZeroRun.Exclusion.Set
import ZeroRun.Pool
import ZeroRun.Residues
import ZeroRun.WalkLanguage

/-!
The search for a candidate: a shortest non-empty walk from the initial to the final state whose
effects sum to zero modulo the modulus at hand and which no exclusion covers.

The search goes through the product of the walk language, the residues and the exclusions layer
by layer. Steps are taken in the order of transition indices and each product state keeps the
word that found it first, so the first goal carries the least candidate: the shortest, and among
those the first in the order of indices. The root is no goal, and a walk that comes back to it
finds it as a new state.

The states of a layer are expanded one after another, or by several workers at once.
-/
namespace ZeroRun

/-- Where a walk stands in all three automata. -/
structure ProductState where
  derivation : DerivationState Int
  residues : Counters
  exclusion : ExclusionState
deriving DecidableEq, Hashable

/-- How a search ended. -/
inductive SearchStatus where
  | found (word : Word)
  | exhausted
  | truncated
deriving DecidableEq, Repr

/-- The end of a search, with the number of product states and of layers it went through. -/
structure SearchOutcome where
  status : SearchStatus
  visited : Nat := 0
  layers : Nat := 0
deriving DecidableEq, Repr

/-- The name of an outcome. -/
def SearchStatus.name : SearchStatus → String
  | .found _ => "FOUND"
  | .exhausted => "EXHAUSTED"
  | .truncated => "TRUNCATED"

/-- The candidate that was found. -/
def SearchStatus.word? : SearchStatus → Option Word
  | .found word => some word
  | _ => none

/-- What a search is about. Without a limit, walks of any length are candidates. The pool is asked
only if there is more than one worker. -/
structure CandidateSearch (sys : CounterSystem) where
  language : WalkLanguage sys
  space : ResidueSpace
  exclusions : ExclusionSet
  maxLength : Option Int := none
  workers : Int := 1
  pool : Pool := .inTurn

namespace CandidateSearch
variable {sys : CounterSystem} (search : CandidateSearch sys)

/-- The effect of the transition with an index. -/
def effectOf (sys : CounterSystem) (index : Int) : Counters :=
  ((itemAt? sys.transitions index).map Transition.effect).getD []

/-- Is the walk that stands here a candidate? -/
def isGoal (state : ProductState) : Bool :=
  search.language.grammar.completes state.derivation
    && !search.space.isUnbalanced state.residues
    && !search.exclusions.excludesWord state.exclusion

/-- The states after one more transition, in the order of indices; blocked ones are left out. -/
def successors (state : ProductState) : List (Int × ProductState) :=
  (search.language.grammar.steps state.derivation).filterMap fun (index, derivation) =>
    (search.exclusions.step state.exclusion index).map fun exclusion =>
      (index, ⟨derivation, search.space.step state.residues (effectOf sys index), exclusion⟩)

/-- A product state and the word that found it, its last letter first. -/
abbrev Node := ProductState × List Int

/-- The nodes after one more transition. -/
def children (node : Node) : List Node :=
  (search.successors node.1).map fun (index, state) => (state, index :: node.2)

/-- The nodes after one more transition from each node of a layer. -/
def expandLayer (layer : Nat) (frontier : List Node) : List (List Node) :=
  if 1 < search.workers then search.pool.map layer search.children frontier
  else frontier.map search.children

/-- The states found so far. -/
abbrev Visited := Std.HashSet ProductState

/-- The outcome of looking at the nodes of a new layer. -/
inductive LayerScan where
  | goal (node : Node) (visited : Visited)
  | layer (nodes : List Node) (visited : Visited)

/-- Takes up the new states of a layer in order, until one of them is a goal. -/
def scan : (visited : Visited) → (nodes : List Node) → (kept : List Node) → LayerScan
  | visited, [], kept => .layer kept.reverse visited
  | visited, node :: nodes, kept =>
    if visited.contains node.1 then scan visited nodes kept
    else if search.isGoal node.1 then .goal node (visited.insert node.1)
    else scan (visited.insert node.1) nodes (node :: kept)

/-- Has the length limit been reached? -/
def atLimit (length : Nat) : Bool :=
  match search.maxLength with
  | none => false
  | some limit => decide (limit ≤ length)

/-- Layer after layer, at most `layers` of them. -/
def explore : (layers : Nat) → (visited : Visited) → (frontier : List Node) → (length : Nat) →
    SearchOutcome
  | 0, visited, _, length => ⟨.exhausted, visited.size, length⟩
  | layers + 1, visited, frontier, length =>
    if frontier.isEmpty then ⟨.exhausted, visited.size, length⟩
    else
      let nodes := (search.expandLayer length frontier).flatten
      if search.atLimit length then
        if nodes.any fun node => !visited.contains node.1 then
          ⟨.truncated, visited.size, length⟩
        else ⟨.exhausted, visited.size, length⟩
      else
        match search.scan visited nodes [] with
        | .goal node visited => ⟨.found node.2.reverse, visited.size, length + 1⟩
        | .layer kept visited => explore layers visited kept (length + 1)

/-- A bound on the number of product states. -/
def stateBound : Nat :=
  search.language.grammar.rules.length * search.space.stateCount.toNat
    * (search.exclusions.trie.nodes.size + 1)
    * (search.exclusions.patterns.map fun p =>
        Nat.pow 2 (p.stem.length + p.cycle.length + p.tail.length + 3)).foldr (· * ·) 1

/-- Runs the search. Each layer but the last finds a new state, so the bound on states also
bounds the layers. -/
def run : Except Error SearchOutcome := do
  match ← search.language.grammar.initialState with
  | none => return { status := .exhausted }
  | some derivation =>
    let root : ProductState := ⟨derivation, search.space.start, search.exclusions.start⟩
    return search.explore (search.stateBound + 2) ∅ [(root, [])] 0

end CandidateSearch
end ZeroRun
