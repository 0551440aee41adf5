import Mathlib
import ZeroRun.Proofs.Grammar.Enumerate

/-! Which grammars are refused. A leftmost derivation replaces the first nonterminal, behind
whatever terminals it has emitted. A grammar is refused if such a derivation leads from a
nonterminal back to the same one at the front. As only concatenations put a nonterminal at the
front, this is a circle of concatenations, in which left parts that derive the empty word are
skipped. To know these the shortest lengths are needed, and if they are out of range nothing can be
said about the grammar. -/
namespace ZeroRun.Grammar
open Relation (TransGen)

variable {τ : Type} {g : Grammar τ} {name other : Ident} {a b rest : DerivationState τ}

/-! ## Leftmost derivations -/

/-- The first nonterminal, with only terminals before it, makes place for a right-hand side. -/
def StepsLeftmost (g : Grammar τ) (a b : DerivationState τ) : Prop :=
  ∃ (before : List τ) (name : Ident) (rest : DerivationState τ), ∃ body ∈ g.bodies name,
    a = before.map .terminal ++ .nonterminal name :: rest ∧
      b = before.map .terminal ++ (body.symbols ++ rest)

/-- Some nonterminal has a leftmost derivation, of at least one step, to a form that begins with
it. -/
def ReturnsToFront (g : Grammar τ) : Prop :=
  ∃ name rest, TransGen g.StepsLeftmost [.nonterminal name] (.nonterminal name :: rest)

theorem Unfolds.stepsLeftmost (unfolds : g.Unfolds a b) : g.StepsLeftmost a b := by
  obtain ⟨name, rest, body, rule, rfl, rfl⟩ := unfolds_iff.1 unfolds
  exact ⟨[], name, rest, body, rule, rfl, rfl⟩

/-- A terminal that has been emitted stays at the front. -/
theorem StepsLeftmost.unfolds (step : g.StepsLeftmost a (.nonterminal name :: rest)) :
    g.Unfolds a (.nonterminal name :: rest) := by
  obtain ⟨before, replaced, tail, body, rule, rfl, same⟩ := step
  cases before with
  | nil => exact unfolds_iff.2 ⟨replaced, tail, body, rule, rfl, same⟩
  | cons t before => cases same

/-- As long as a nonterminal is at the front, nothing but unfolding has happened. -/
theorem unfolds_of_stepsLeftmost (path : TransGen g.StepsLeftmost a b) :
    ∀ {name rest}, b = .nonterminal name :: rest → TransGen g.Unfolds a b := by
  induction path with
  | single step =>
    rintro name rest rfl
    exact .single step.unfolds
  | tail _ step ih =>
    rintro name rest rfl
    obtain ⟨first, tail, body, rule, begins, same⟩ := unfolds_iff.1 step.unfolds
    exact .tail (ih begins) step.unfolds

theorem returnsToFront_iff : g.ReturnsToFront ↔ g.LeftRecursive := by
  constructor
  · rintro ⟨name, rest, path⟩
    exact ⟨name, rest, unfolds_of_stepsLeftmost path rfl⟩
  · rintro ⟨name, rest, path⟩
    exact ⟨name, rest, path.lift id fun _ _ => Unfolds.stepsLeftmost⟩

/-! ## Concatenations -/

/-- A concatenation begins with its left part, and with its right part too if the left one derives
the empty word. -/
def BeginsWith (g : Grammar τ) (name other : Ident) : Prop :=
  ∃ left right, .concat left right ∈ g.bodies name ∧
    (other = left ∨ (other = right ∧ g.Derives [.nonterminal left] []))

theorem corner_iff (nodup : g.nonterminals.Nodup) :
    g.Corner name other ↔ g.BeginsWith name other := by
  have leading : ∀ left right,
      other ∈ leadingNames g.yields.nullable (Body.concat (τ := τ) left right).symbols ↔
        other = left ∨ (other = right ∧ g.Derives [.nonterminal left] []) := by
    intro left right
    rw [← g.mem_nullable nodup]
    by_cases skip : left ∈ g.yields.nullable <;> simp [Body.symbols, leadingNames, skip]
  constructor
  · rintro ⟨body, rule, mem⟩
    cases body with
    | edge t next => cases mem
    | excursion opening inner closing => cases mem
    | epsilon => cases mem
    | concat left right => exact ⟨left, right, rule, (leading left right).1 mem⟩
  · rintro ⟨left, right, rule, first⟩
    exact ⟨_, rule, (leading left right).2 first⟩

theorem returnsToFront_iff_cycle (wellFormed : g.WellFormed) :
    g.ReturnsToFront ↔ ∃ name, TransGen g.BeginsWith name name := by
  have same : g.Corner = g.BeginsWith := by
    funext name other
    exact propext (corner_iff wellFormed.nodup)
  rw [returnsToFront_iff, leftRecursive_iff_cycle wellFormed, same]

/-! ## Refusal -/

/-- A nonterminal whose corners lead back to it has a leftmost derivation back to the front. -/
theorem returns_of_corners (nodup : g.nonterminals.Nodup) (cycle : TransGen g.Corner name name) :
    ∃ rest, TransGen g.StepsLeftmost [.nonterminal name] (.nonterminal name :: rest) := by
  obtain ⟨rest, path⟩ := unfolds_of_corners nodup cycle
  exact ⟨rest, path.lift id fun _ _ => Unfolds.stepsLeftmost⟩

/-- The check fails if and only if a derivation returns to the front, and names where. -/
theorem checkLeftRecursion_answers (wellFormed : g.WellFormed) {table : Yields}
    (found : g.shortestLengths = .ok table) :
    (g.checkLeftRecursion = .ok () ∧ ¬ g.ReturnsToFront) ∨
      ∃ name rest, g.checkLeftRecursion = .error (.leftRecursive g.name name) ∧
        TransGen g.StepsLeftmost [.nonterminal name] (.nonterminal name :: rest) := by
  rcases checkLeftRecursion_cases wellFormed found with ⟨accepted, acyclic⟩ | ⟨name, refused, cycle⟩
  · refine .inl ⟨accepted, fun returns => ?_⟩
    rw [returnsToFront_iff] at returns
    exact Proper.not_leftRecursive ⟨wellFormed, acyclic⟩ returns
  · obtain ⟨rest, path⟩ := returns_of_corners wellFormed.nodup cycle
    exact .inr ⟨name, rest, refused, path⟩

/-- A derivation is not begun if the check fails, unless there is no word to derive. -/
theorem initialState_eq_error_iff [DecidableEq τ] (wellFormed : g.WellFormed) {table : Yields}
    (found : g.shortestLengths = .ok table) {cause : Error} :
    g.initialState = .error cause ↔
      g.checkLeftRecursion = .error cause ∧ ∃ word, g.Generates word := by
  simp only [generates_iff wellFormed.nodup]
  cases begins : g.start with
  | none =>
    rw [initialState, isEmpty, begins]
    simp [bind, Except.bind, pure, Except.pure]
  | some start =>
    have inhabited : (∃ word, g.Derives [.nonterminal start] word) ↔
        (g.yields.of start).isSome = true := (g.isSome_yields_of).symm
    simp only [Option.some.injEq, exists_eq_left', inhabited]
    rw [initialState, isEmpty_eq wellFormed found begins]
    cases g.yields.of start with
    | none => simp [bind, Except.bind, pure, Except.pure]
    | some n => cases g.checkLeftRecursion <;> simp [bind, Except.bind, pure, Except.pure]

/-- The check fails for exactly those grammars in which a nonterminal, useful or not, has a leftmost
derivation back to itself at the front, which is a circle of concatenations, and such a nonterminal
is named. Derivations cannot be begun in these grammars, except if the language is empty. The only
other reason to fail is that the shortest lengths are out of range, for which more than 1025
nonterminals are needed. -/
theorem checkLeftRecursion_exact [DecidableEq τ] (wellFormed : g.WellFormed) :
    (g.ReturnsToFront ↔ ∃ name, TransGen g.BeginsWith name name) ∧
    ((∃ table, g.shortestLengths = .ok table ∧
      ((∃ cause, g.checkLeftRecursion = .error cause) ↔ g.ReturnsToFront) ∧
      (∀ cause, g.checkLeftRecursion = .error cause → cause.kind = .badValue ∧
        ∃ name rest, cause = .leftRecursive g.name name ∧
          TransGen g.StepsLeftmost [.nonterminal name] (.nonterminal name :: rest)) ∧
      ∀ cause, g.initialState = .error cause ↔
        g.checkLeftRecursion = .error cause ∧ ∃ word, g.Generates word) ∨
    (g.shortestLengths = .error (.conversion .decimalTooLarge) ∧
      g.checkLeftRecursion = .error (.conversion .decimalTooLarge) ∧
      g.initialState =
        (if g.start.isSome then .error (.conversion .decimalTooLarge) else .ok none) ∧
      1025 < g.nonterminals.length)) := by
  refine ⟨returnsToFront_iff_cycle wellFormed, ?_⟩
  rcases shortestLengths_cases wellFormed with ⟨table, found, -⟩ | ⟨fails, many⟩
  · refine .inl ⟨table, found, ?_, fun cause failed => ?_, fun cause => ?_⟩
    · rcases checkLeftRecursion_answers wellFormed found with
        ⟨accepted, never⟩ | ⟨name, rest, refused, path⟩
      · simp [accepted, never]
      · exact ⟨fun _ => ⟨name, rest, path⟩, fun _ => ⟨_, refused⟩⟩
    · rcases checkLeftRecursion_answers wellFormed found with
        ⟨accepted, -⟩ | ⟨name, rest, refused, path⟩
      · cases failed.symm.trans accepted
      · cases failed.symm.trans refused
        exact ⟨ite_self _, name, rest, rfl, path⟩
    · exact initialState_eq_error_iff wellFormed found
  · refine .inr ⟨fails, checkLeftRecursion_of_error fails, ?_, many⟩
    cases begins : g.start with
    | none =>
      rw [initialState, isEmpty, begins]
      rfl
    | some start => exact initialState_of_error begins fails

/-- A letter, and a nonterminal of no use that comes back behind one that derives the empty word. -/
def hiddenCircle : Grammar Char where
  name := .text "hidden"
  rules := [(.int 0, [.edge 'a' none]), (.int 1, [.concat (.int 2) (.int 1)]), (.int 2, [.epsilon])]
  terminals := ['a']
  start := some (.int 0)

theorem wellFormed_hiddenCircle : hiddenCircle.WellFormed := by
  constructor
  · decide
  · simp [hiddenCircle, Body.nonterminals, nonterminals]

theorem returnsToFront_hiddenCircle : hiddenCircle.ReturnsToFront := by
  have concat : hiddenCircle.StepsLeftmost [.nonterminal (.int 1)]
      [.nonterminal (.int 2), .nonterminal (.int 1)] :=
    ⟨[], .int 1, [], .concat (.int 2) (.int 1), .head _, rfl, rfl⟩
  have skip : hiddenCircle.StepsLeftmost [.nonterminal (.int 2), .nonterminal (.int 1)]
      [.nonterminal (.int 1)] := ⟨[], .int 2, [.nonterminal (.int 1)], .epsilon, .head _, rfl, rfl⟩
  exact ⟨.int 1, [], .head concat (.single skip)⟩

/-- The circle is refused although the start symbol does not lead to it. -/
theorem checkLeftRecursion_hiddenCircle :
    hiddenCircle.WellFormed ∧ hiddenCircle.ReturnsToFront ∧
      ∃ cause, hiddenCircle.checkLeftRecursion = .error cause ∧ cause.kind = .badValue ∧
        hiddenCircle.initialState = .error cause := by
  have word : hiddenCircle.Generates ['a'] := by
    refine (generates_iff wellFormed_hiddenCircle.nodup).2 ⟨.int 0, rfl, ?_⟩
    exact .unfold (.head _) (.emit 'a' .nil)
  rcases (checkLeftRecursion_exact wellFormed_hiddenCircle).2 with
    ⟨table, -, refused, named, begun⟩ | ⟨-, -, -, many⟩
  · obtain ⟨cause, failed⟩ := refused.2 returnsToFront_hiddenCircle
    exact ⟨wellFormed_hiddenCircle, returnsToFront_hiddenCircle, cause, failed,
      (named cause failed).1, (begun cause).2 ⟨failed, _, word⟩⟩
  · exact absurd many (by decide)

/-- With 1026 nonterminals a derivation need not begin, although no derivation returns to the front
and the language has a word. The failure is not that of a left-recursive grammar. -/
theorem initialState_thousand_doublings :
    (doublingFromZero 1024).WellFormed ∧ ¬ (doublingFromZero 1024).ReturnsToFront ∧
      (doublingFromZero 1024).Generates ['t'] ∧
      (doublingFromZero 1024).initialState = .error (.conversion .decimalTooLarge) ∧
      (doublingFromZero 1024).checkLeftRecursion = .error (.conversion .decimalTooLarge) := by
  have begins : (doublingFromZero 1024).start = some (.int 0) := rfl
  refine ⟨wellFormed_doublingFromZero 1024, ?_, generates_doublingFromZero_iff.2 rfl,
    initialState_of_error begins shortestLengths_doublingFromZero,
    checkLeftRecursion_of_error shortestLengths_doublingFromZero⟩
  rw [returnsToFront_iff]
  exact not_leftRecursive_doublingFromZero 1024

end ZeroRun.Grammar
