import ZeroRun.Circle
import ZeroRun.Grammar.Trim

/-!
Derivation steps. Unfolding replaces the leftmost nonterminal of a derivation state by the right
-hand sides of its productions. The states that begin with a terminal are ready to emit it, and
the empty state has nothing left to derive.

Unfolding comes to an end unless a nonterminal can come back to the left end without a terminal
in front of it; such grammars are left-recursive and are refused.
-/
namespace ZeroRun.Grammar
variable {τ : Type}

/-- The nonterminals that can stand at the left end of what the symbols derive: those in front
of the first terminal, as long as all before them derive the empty word. -/
def leadingNames (nullable : List Ident) : DerivationState τ → List Ident
  | .nonterminal name :: rest =>
    name :: (if name ∈ nullable then leadingNames nullable rest else [])
  | _ => []

/-- For each nonterminal, those that can come to the left end when it is unfolded once. -/
def leftCorners (g : Grammar τ) (nullable : List Ident) : List (Ident × List Ident) :=
  g.rules.map fun (name, bodies) =>
    (name, distinct (bodies.flatMap fun body => leadingNames nullable body.symbols))

/-- The nonterminals that can come to the left end when the given one is unfolded once. -/
def cornersOf (corners : List (Ident × List Ident)) (name : Ident) : List Ident :=
  (List.lookup name corners).getD []

/-- Refuses a left-recursive grammar, and names a nonterminal that can come back to the left end. -/
def checkLeftRecursion (g : Grammar τ) : Except Error Unit := do
  let corners := g.leftCorners (← g.nullable)
  match Circle.find? (cornersOf corners) g.nonterminals with
  | none => return
  | some name => .error (.leftRecursive g.name name)

/-- The state with which derivations begin; the empty language has none. -/
def initialState (g : Grammar τ) : Except Error (Option (DerivationState τ)) := do
  if ← g.isEmpty then return none
  g.checkLeftRecursion
  return g.start.map fun name => [.nonterminal name]

/-- Replaces the leftmost symbol, if it is a nonterminal, in all possible ways. -/
def unfold (g : Grammar τ) : DerivationState τ → List (DerivationState τ)
  | .nonterminal name :: rest => (g.bodies name).map fun body => body.symbols ++ rest
  | _ => []

/-- The states found so far and those found from the latest ones, level by level. -/
def growUnfoldings [DecidableEq τ] (g : Grammar τ) :
    (levels : Nat) → (found latest : List (DerivationState τ)) → List (DerivationState τ)
  | 0, found, _ => found
  | levels + 1, found, latest =>
    match (distinct (latest.flatMap g.unfold)).filter (· ∉ found) with
    | [] => found
    | new => growUnfoldings g levels (found ++ new) new

/-- More levels than the unfoldings of a state can have. A nonterminal from which `r` others can
come to the left end in turn is used up after at most `3 ^ r` unfoldings. -/
def levelBound (g : Grammar τ) (state : DerivationState τ) : Nat :=
  (state.length + 1) * Nat.pow 3 (g.rules.length + 1)

/-- All states that a state can be unfolded to, itself first. -/
def unfoldings [DecidableEq τ] (g : Grammar τ) (state : DerivationState τ) :
    List (DerivationState τ) :=
  g.growUnfoldings (g.levelBound state) [state] [state]

/-- A terminal to emit and the state afterwards. -/
abbrev Step (τ : Type) := τ × DerivationState τ

/-- The step of a state that begins with a terminal. -/
def readyStep? : DerivationState τ → Option (Step τ)
  | .terminal t :: rest => some (t, rest)
  | _ => none

/-- The terminal steps from a state, in the order of the terminals; terminals that the grammar
does not know come last. -/
def steps [DecidableEq τ] (g : Grammar τ) (state : DerivationState τ) : List (Step τ) :=
  ((g.unfoldings state).filterMap readyStep?).mergeSort fun a b =>
    g.terminals.idxOf a.1 ≤ g.terminals.idxOf b.1

/-- Can the state derive the empty word? -/
def completes [DecidableEq τ] (g : Grammar τ) (state : DerivationState τ) : Bool :=
  (g.unfoldings state).any List.isEmpty

/-- The steps from a state of a grammar that is not left-recursive. -/
def expand [DecidableEq τ] (g : Grammar τ) (state : DerivationState τ) :
    Except Error (List (Step τ)) := do
  g.checkLeftRecursion
  return g.steps state

/-- Whether a state derives the empty word, in a grammar that is not left-recursive. -/
def isComplete [DecidableEq τ] (g : Grammar τ) (state : DerivationState τ) : Except Error Bool := do
  g.checkLeftRecursion
  return g.completes state

end ZeroRun.Grammar
