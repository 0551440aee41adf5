import ZeroRun.Exclusion.LoopPattern
import ZeroRun.Replay

/-!
What a candidate is. A candidate is a walk whose net effect is zero modulo the modulus at hand;
its exact replay tells

* a genuine run, if no counter drops below zero, all guards hold and the net effect is zero,
* a guard violation or a negative excursion, which certifies that no run begins with the stem up
  to the first failure,
* a wrap-only loop, if the walk goes round a cycle and no number of rounds makes the net effect
  zero, which certifies that the whole loop pattern holds no run,
* or nothing of this kind.
-/
namespace ZeroRun

/-- The kinds of candidates. -/
inductive Classification where
  | genuine
  | negativeExcursion
  | guardViolation
  | wrapOnlyLoop
  | inconclusive
deriving DecidableEq, Repr

namespace Classification

/-- The name of a kind. -/
def name : Classification → String
  | .genuine => "GENUINE"
  | .negativeExcursion => "NEGATIVE_EXCURSION"
  | .guardViolation => "GUARD_VIOLATION"
  | .wrapOnlyLoop => "WRAP_ONLY_LOOP"
  | .inconclusive => "INCONCLUSIVE"

/-- Is the candidate certified to be no run? -/
def isSpurious : Classification → Bool
  | .negativeExcursion | .guardViolation | .wrapOnlyLoop => true
  | .genuine | .inconclusive => false

end Classification

/-- What a candidate turned out to be, with the certificate that excludes it. -/
inductive Finding where
  | genuine
  | negativeExcursion (stem : Word)
  | guardViolation (stem : Word)
  | wrapOnlyLoop (pattern : LoopPattern)
  | inconclusive

namespace Finding

/-- The kind of a finding. -/
def classification : Finding → Classification
  | .genuine => .genuine
  | .negativeExcursion _ => .negativeExcursion
  | .guardViolation _ => .guardViolation
  | .wrapOnlyLoop _ => .wrapOnlyLoop
  | .inconclusive => .inconclusive

/-- The stem with which no run begins. -/
def stem? : Finding → Option Word
  | .negativeExcursion stem | .guardViolation stem => some stem
  | _ => none

/-- The pattern that holds no run. -/
def loop? : Finding → Option LoopPattern
  | .wrapOnlyLoop pattern => some pattern
  | _ => none

end Finding

/-- The number of times that `cycle` stands at the beginning of a word, one after another, at most
`fuel` times. -/
def roundsOf (cycle : Word) : (fuel : Nat) → Word → Nat
  | 0, _ => 0
  | fuel + 1, word =>
    if cycle.isPrefixOf word then roundsOf cycle fuel (word.drop cycle.length) + 1 else 0

/-- The word without the rounds of `cycle` at its beginning. -/
def afterRounds (cycle word : Word) : Word :=
  word.drop (roundsOf cycle word.length word * cycle.length)

/-- The factorization of a word that goes round the cycle between two places as often as it
can. -/
def factorAt? (word : Word) (i j : Nat) : Option LoopPattern :=
  let cycle := (word.take j).drop i
  if h : cycle ≠ [] then some ⟨word.take i, cycle, afterRounds cycle (word.drop j), h⟩ else none

namespace Walk
variable {sys : CounterSystem} (walk : Walk sys)

/-- The factorizations into stem, rounds of a control cycle and tail, by the place of the cycle
and then by its length. -/
def factorizations : List LoopPattern :=
  walk.cycles.filterMap fun (i, j) => factorAt? walk.word i j

end Walk

/-- The constraints on a number `n` with `base + n * cycle = 0`. -/
def balanceConstraints (base cycle : Counters) : List Constraint :=
  (List.zip base cycle).map fun (b, c) => ⟨[c], .equal, -b⟩

/-- The question whether some number of rounds of a loop pattern brings all counters back to
zero. -/
def CounterSystem.balanceQuestion (sys : CounterSystem) (pattern : LoopPattern) :
    Except Error (List Constraint) := do
  let stem ← sys.sumEffects pattern.stem
  let tail ← sys.sumEffects pattern.tail
  let cycle ← sys.sumEffects pattern.cycle
  return balanceConstraints (stem.add tail) cycle

/-- May some number of rounds of a loop pattern bring all counters back to zero? Only if an oracle
refutes it, none does. -/
def CounterSystem.canBalance (sys : CounterSystem) (pattern : LoopPattern)
    (oracle : Linear.Oracle := Linear.solver) : Except Error Bool := do
  let question ← sys.balanceQuestion pattern
  return !oracle.refutes 1 question

/-- Can the question about a loop pattern be put to an oracle in writing? -/
def CounterSystem.canAsk (sys : CounterSystem) (pattern : LoopPattern) : Bool :=
  match sys.balanceQuestion pattern with
  | .error _ => false
  | .ok question => question.all Constraint.isWritable

/-- The first factorization of a word, at one of the given pairs of places, that no number of
rounds balances. -/
def CounterSystem.firstUnbalanced (sys : CounterSystem) (oracle : Linear.Oracle) (word : Word) :
    List (Nat × Nat) → Except Error (Option LoopPattern)
  | [] => .ok none
  | (i, j) :: places =>
    match factorAt? word i j with
    | none => sys.firstUnbalanced oracle word places
    | some pattern =>
      match sys.canBalance pattern oracle with
      | .error e => .error e
      | .ok true => sys.firstUnbalanced oracle word places
      | .ok false => .ok (some pattern)

namespace Walk
variable {sys : CounterSystem} (walk : Walk sys)

/-- The first factorization that no number of rounds balances. -/
def wrapOnlyLoop? (oracle : Linear.Oracle := Linear.solver) :
    Except Error (Option LoopPattern) :=
  sys.firstUnbalanced oracle walk.word walk.cycles

/-- What the walk is if its stem certifies nothing: a wrap-only loop, unless its net effect is
zero or all its factorizations can be balanced. -/
def classifyLoop (oracle : Linear.Oracle) : Except Error Finding :=
  if walk.replay.netEffect.isZero then .ok .inconclusive
  else
    match walk.wrapOnlyLoop? oracle with
    | .error e => .error e
    | .ok (some pattern) => .ok (.wrapOnlyLoop pattern)
    | .ok none => .ok .inconclusive

/-- What the walk is at a modulus. Its net effect has to be zero modulo the modulus. A guard that
fails at the first block wins over a counter below zero, and counters below zero count only as
long as no counter has reached the modulus. -/
def classify (modulus : Int) (oracle : Linear.Oracle := Linear.solver) : Except Error Finding :=
  let replay := walk.replay
  let net := replay.netEffect
  if modulus = 0 ∧ net ≠ [] then .error .moduloZero
  else if net.any fun x => x.fmod modulus ≠ 0 then
    .error (.unbalancedCandidate walk.word net modulus)
  else
    match replay.firstBlock with
    | none => if net.isZero then .ok .genuine else walk.classifyLoop oracle
    | some block =>
      if replay.firstGuardFailure = some block then .ok (.guardViolation (walk.word.take block))
      else if replay.peak < modulus then .ok (.negativeExcursion (walk.word.take block))
      else walk.classifyLoop oracle

/-- The loop patterns that an oracle was asked about until the finding was made. -/
def asked : Finding → List LoopPattern
  | .wrapOnlyLoop pattern => walk.factorizations.takeWhile (· ≠ pattern) ++ [pattern]
  | .inconclusive => if walk.replay.netEffect.isZero then [] else walk.factorizations
  | _ => []

end Walk
end ZeroRun
