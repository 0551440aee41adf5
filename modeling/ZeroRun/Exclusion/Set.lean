import ZeroRun.Exclusion.LoopPattern
import ZeroRun.Exclusion.Trie

/-!
What has been found out to be no run: blocked stems, with which no run begins, and loop patterns,
which hold no run as a whole word. Both are followed at once while a word is read.
-/
namespace ZeroRun

/-- Blocked stems and excluded loop patterns. -/
structure ExclusionSet where
  trie : Trie := {}
  patterns : List LoopPattern := []

/-- Where a word stands in the trie and in each pattern. -/
structure ExclusionState where
  node : TrieNode
  loops : List (List Position)
deriving DecidableEq, Hashable

namespace ExclusionSet

/-- The number of blocked stems. -/
def stemCount (set : ExclusionSet) : Nat :=
  set.trie.stems.length

/-- The number of loop patterns. -/
def loopCount (set : ExclusionSet) : Nat :=
  set.patterns.length

/-- The number of exclusions. -/
def size (set : ExclusionSet) : Nat :=
  set.stemCount + set.loopCount

/-- Records a blocked stem and says whether it was new. -/
def recordStem (set : ExclusionSet) (stem : Word) : Except Error (Bool × ExclusionSet) := do
  let (fresh, trie) ← set.trie.add stem
  return (fresh, { set with trie })

/-- Records a loop pattern and says whether it was new. -/
def recordLoop (set : ExclusionSet) (pattern : LoopPattern) : Bool × ExclusionSet :=
  if pattern ∈ set.patterns then (false, set)
  else (true, { set with patterns := set.patterns ++ [pattern] })

/-- Where the empty word stands. -/
def start (set : ExclusionSet) : ExclusionState :=
  ⟨.at 0, set.patterns.map LoopPattern.start⟩

/-- Where the word stands after one more letter, or `none` if it is blocked. -/
def step (set : ExclusionSet) (state : ExclusionState) (letter : Int) : Option ExclusionState :=
  (set.trie.step state.node letter).map fun node =>
    ⟨node, List.zipWith (fun pattern positions => pattern.step positions letter)
      set.patterns state.loops⟩

/-- Does a loop pattern hold the whole word that has been read? -/
def excludesWord (set : ExclusionSet) (state : ExclusionState) : Bool :=
  (List.zipWith LoopPattern.isMatch set.patterns state.loops).any id

/-- Is the word excluded, by a stem or by a pattern? -/
def excludes (set : ExclusionSet) (word : Word) : Bool :=
  match word.foldlM set.step set.start with
  | none => true
  | some state => set.excludesWord state

/-- A line for each exclusion. -/
def describe (set : ExclusionSet) : Except Error (List String) := do
  let stems ← set.trie.stems.mapM fun stem => do return "blocked prefix " ++ (← Text.ints stem)
  let loops ← set.patterns.mapM fun pattern => do return "wrap-only loop " ++ (← pattern.toText)
  return stems ++ loops

end ExclusionSet
end ZeroRun
