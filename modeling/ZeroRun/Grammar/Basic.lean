import ZeroRun.Error
import ZeroRun.Sequence

/-!
Context-free grammars with four kinds of productions:

* an edge emits a terminal and may go on with a nonterminal,
* an excursion emits a terminal, derives a nonterminal and emits a second terminal,
* a concatenation derives one nonterminal after another,
* an epsilon production derives nothing.

A derivation state is the list of symbols still to be derived, leftmost first.
-/
namespace ZeroRun

/-- A symbol of a grammar with terminals in `τ`. -/
inductive Symbol (τ : Type) where
  | terminal (name : τ)
  | nonterminal (name : Ident)
deriving DecidableEq, Hashable

/-- The right-hand side of a production. -/
inductive Body (τ : Type) where
  | edge (emitted : τ) (next : Option Ident)
  | excursion (opening : τ) (inner : Ident) (closing : τ)
  | concat (left right : Ident)
  | epsilon
deriving DecidableEq

/-- The symbols still to be derived. -/
abbrev DerivationState (τ : Type) := List (Symbol τ)

namespace Body
variable {τ : Type}

/-- The symbols in the order of derivation. -/
def symbols : Body τ → DerivationState τ
  | .edge t next => .terminal t :: next.toList.map .nonterminal
  | .excursion opening inner closing => [.terminal opening, .nonterminal inner, .terminal closing]
  | .concat left right => [.nonterminal left, .nonterminal right]
  | .epsilon => []

/-- The terminals in order. -/
def terminals : Body τ → List τ
  | .edge t _ => [t]
  | .excursion opening _ closing => [opening, closing]
  | .concat _ _ | .epsilon => []

/-- The nonterminals in order. -/
def nonterminals : Body τ → List Ident
  | .edge _ next => next.toList
  | .excursion _ inner _ => [inner]
  | .concat left right => [left, right]
  | .epsilon => []

/-- The body of a structural case with the given operands, which have to fit the case. -/
def ofOperands (kind : ProductionKind) (lhs : Ident) (terminals : List τ)
    (nonterminals : List Ident) : Except Error (Body τ) :=
  match kind, terminals, nonterminals with
  | .edge, [t], [] => .ok (.edge t none)
  | .edge, [t], [next] => .ok (.edge t (some next))
  | .excursion, [opening, closing], [inner] => .ok (.excursion opening inner closing)
  | .concat, [], [left, right] => .ok (.concat left right)
  | .epsilon, [], [] => .ok .epsilon
  | _, _, _ => .error (.arity kind lhs terminals.length nonterminals.length)

/-- The symbols in running text. -/
def toText (written : τ → Except Error String) (body : Body τ) : Except Error String :=
  match body.symbols with
  | [] => .ok "ε"
  | symbols => do
    let parts ← symbols.mapM fun
      | .terminal t => written t
      | .nonterminal n => n.plain
    return " ".intercalate parts

end Body

/-- A production. -/
structure Production (τ : Type) where
  lhs : Ident
  body : Body τ
deriving DecidableEq

/-- The production in running text. -/
def Production.toText {τ : Type} (written : τ → Except Error String) (p : Production τ) :
    Except Error String := do
  let body ← p.body.toText written
  return (← p.lhs.plain) ++ " -> " ++ body

/-- A grammar. Nonterminals and terminals are kept in the order in which they came up. -/
structure Grammar (τ : Type) where
  name : Ident
  rules : List (Ident × List (Body τ)) := []
  terminals : List τ := []
  start : Option Ident := none

namespace Grammar
variable {τ : Type}

/-- The nonterminals in order. -/
def nonterminals (g : Grammar τ) : List Ident :=
  g.rules.map Prod.fst

/-- The right-hand sides of a nonterminal; an unknown one has none. -/
def bodies (g : Grammar τ) (name : Ident) : List (Body τ) :=
  (g.rules.lookup name).getD []

/-- The productions of a nonterminal. -/
def productions (g : Grammar τ) (name : Ident) : List (Production τ) :=
  (g.bodies name).map fun body => ⟨name, body⟩

/-- The productions of all nonterminals. -/
def allProductions (g : Grammar τ) : List (Production τ) :=
  g.rules.flatMap fun (name, bodies) => bodies.map fun body => ⟨name, body⟩

/-- Adds a nonterminal unless it is there. -/
def addNonterminal (g : Grammar τ) (name : Ident) : Grammar τ :=
  if name ∈ g.nonterminals then g else { g with rules := g.rules ++ [(name, [])] }

/-- Adds an item at the end unless it is there. -/
def addNew {α : Type} [DecidableEq α] (items : List α) (item : α) : List α :=
  if item ∈ items then items else items ++ [item]

/-- Adds a production; all its nonterminals have to be known. -/
def addProduction [DecidableEq τ] (g : Grammar τ) (p : Production τ) : Except Error (Grammar τ) :=
  match (p.lhs :: p.body.nonterminals).find? (· ∉ g.nonterminals) with
  | some name => .error (.unknownNonterminal name)
  | none =>
    .ok { g with
      rules := g.rules.map fun (name, bodies) =>
        (name, if name = p.lhs then bodies ++ [p.body] else bodies)
      terminals := p.body.terminals.foldl addNew g.terminals }

/-- Sets or clears the start symbol, which has to be known. -/
def setStart (g : Grammar τ) (start : Option Ident) : Except Error (Grammar τ) :=
  match start with
  | none => .ok { g with start := none }
  | some name =>
    if name ∈ g.nonterminals then .ok { g with start := some name }
    else .error (.unknownNonterminal name)

/-- The grammar in several lines: name, start symbol, productions. -/
def toText (written : τ → Except Error String) (g : Grammar τ) : Except Error String := do
  let name ← g.name.plain
  let start ← (g.start.getD .absent).plain
  let productions ← g.allProductions.mapM (·.toText written)
  return "\n".intercalate
    (["Grammar: " ++ name, "  Start: " ++ start] ++ productions.map ("  " ++ ·))

end Grammar
end ZeroRun
