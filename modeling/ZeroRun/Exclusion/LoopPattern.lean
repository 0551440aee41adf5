import ZeroRun.Counters
import ZeroRun.Error
import ZeroRun.Sequence

/-!
Loop patterns: the words that begin with a stem, go round a cycle any number of times, and end
with a tail. A small automaton recognises them: its positions are places within the three
segments, and a set of positions is kept while a word is read.
-/
namespace ZeroRun

/-- The three parts of a loop pattern. -/
inductive Segment where
  | stem
  | cycle
  | tail
deriving DecidableEq, Repr, Hashable

/-- The number of a segment. -/
def Segment.number : Segment → Nat
  | .stem => 0
  | .cycle => 1
  | .tail => 2

/-- A place in a segment: so many of its letters have been read. -/
structure Position where
  segment : Segment
  offset : Nat
deriving DecidableEq, Repr, Hashable

/-- Positions in the order of segments, then of offsets. -/
def Position.le (a b : Position) : Bool :=
  decide (a.segment.number < b.segment.number)
    || (a.segment.number == b.segment.number && decide (a.offset ≤ b.offset))

/-- The words `stem ++ cycle ++ … ++ cycle ++ tail`. -/
structure LoopPattern where
  stem : Word
  cycle : Word
  tail : Word
  cycle_ne_nil : cycle ≠ []
deriving DecidableEq

namespace LoopPattern

/-- The pattern with the given segments; the cycle must not be empty. -/
def make (stem cycle tail : Word) : Except Error LoopPattern :=
  if h : cycle ≠ [] then .ok ⟨stem, cycle, tail, h⟩ else .error .emptyCycle

variable (pattern : LoopPattern)

/-- The letters of a segment. -/
def letters : Segment → Word
  | .stem => pattern.stem
  | .cycle => pattern.cycle
  | .tail => pattern.tail

/-- The positions that are reached from a position without a letter: at the end of the stem and
of the cycle the cycle may begin, and where the cycle may begin it may also be left. -/
def skips (p : Position) : List Position :=
  if p = ⟨.stem, pattern.stem.length⟩ ∨ p = ⟨.cycle, pattern.cycle.length⟩ then
    [⟨.cycle, 0⟩, ⟨.tail, 0⟩]
  else if p = ⟨.cycle, 0⟩ then [⟨.tail, 0⟩]
  else []

/-- A set of positions in order, without repetitions. -/
def arrange (positions : List Position) : List Position :=
  distinct (positions.mergeSort Position.le)

/-- The positions with all that are reached without a letter. -/
def close (positions : List Position) : List Position :=
  arrange (positions ++ positions.flatMap pattern.skips)

/-- The positions before the first letter. -/
def start : List Position :=
  pattern.close [⟨.stem, 0⟩]

/-- The positions after one more letter. -/
def step (positions : List Position) (letter : Int) : List Position :=
  pattern.close (positions.filterMap fun p =>
    if (pattern.letters p.segment)[p.offset]? = some letter then some { p with offset := p.offset + 1 }
    else none)

/-- Has the whole pattern been read? -/
def isMatch (positions : List Position) : Bool :=
  ⟨.tail, pattern.tail.length⟩ ∈ positions

/-- Does the word belong to the pattern? -/
def isMember (word : Word) : Bool :=
  pattern.isMatch (word.foldl pattern.step pattern.start)

/-- The three segments, the cycle in parentheses. -/
def toText : Except Error String :=
  Error.written (Text.loop? pattern.stem pattern.cycle pattern.tail)

end LoopPattern
end ZeroRun
