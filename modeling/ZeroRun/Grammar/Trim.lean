import ZeroRun.Grammar.Sweep

/-!
What takes part in derivations of words. A nonterminal is productive if it derives a word. Trimming
leaves the productive nonterminals that the start symbol leads to through productive ones.
-/
namespace ZeroRun.Grammar
variable {τ : Type}

namespace Yields

/-- The names of finite length. -/
def productive (table : Yields) : List Ident :=
  (table.filter fun entry => entry.2.isSome).map Prod.fst

/-- The names of length zero. -/
def nullable (table : Yields) : List Ident :=
  (table.filter fun entry => entry.2 = some 0).map Prod.fst

end Yields

/-- The nonterminals that derive a word. -/
def productive (g : Grammar τ) : Except Error (List Ident) := do
  return (← g.shortestLengths).productive

/-- The nonterminals that derive the empty word. -/
def nullable (g : Grammar τ) : Except Error (List Ident) := do
  return (← g.shortestLengths).nullable

/-- Does the start symbol derive no word, or is there none? Without a start symbol no lengths are
asked for. -/
def isEmpty (g : Grammar τ) : Except Error Bool :=
  match g.start with
  | none => .ok true
  | some name => do return ((← g.shortestLengths).of name).isNone

/-- The length of a shortest word of a derivation state. -/
def stateMinimum (g : Grammar τ) (state : DerivationState τ) : Except Error Length := do
  stateLength (← g.shortestLengths) state

/-- The nonterminals that the start symbol leads to, itself included. -/
def reachable (g : Grammar τ) : List Ident :=
  spread (fun name => (g.bodies name).flatMap Body.nonterminals) g.rules.length g.start.toList

/-- The grammar without the nonterminals that are not among the productive ones, and then without
those that the start symbol does not lead to. If the start symbol is not productive, nothing is
left. A missing start symbol counts as the absent name: no rule is left, but the terminals are if a
nonterminal of that name is productive. -/
def trimTo (productive : List Ident) (g : Grammar τ) : Grammar τ :=
  match g.start with
  | none => { name := g.name, terminals := if .absent ∈ productive then g.terminals else [] }
  | some start =>
    if start ∈ productive then
      let pruned : Grammar τ := { g with
        rules := (g.rules.filter fun rule => rule.1 ∈ productive).map fun (name, bodies) =>
          (name, bodies.filter fun body => body.nonterminals.all (· ∈ productive)) }
      let reachable := pruned.reachable
      { pruned with rules := pruned.rules.filter fun rule => rule.1 ∈ reachable }
    else { name := g.name }

/-- The grammar without what takes no part in a derivation of a word. -/
def trim (g : Grammar τ) : Except Error (Grammar τ) := do
  return g.trimTo (← g.productive)

end ZeroRun.Grammar
