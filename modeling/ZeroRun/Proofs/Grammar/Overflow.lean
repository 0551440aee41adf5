import Mathlib
import ZeroRun.Proofs.Grammar.Layer

/-! Lengths that are out of range in an enumeration. A derivation is dropped when even its shortest
completion is too long, and a derivation without a completion has an infinite length to which the
length of a part of it may be too large to be added. What stands before the first symbol without a
word has been collected along one chain of leftmost nonterminals, which do not repeat. So its length
is at most the number of nonterminals times the largest yield, besides what was pending before, and
a grammar needs about a thousand nonterminals for it to be out of range. -/
namespace ZeroRun.Grammar
open Binary64 (overflowBound)
open Relation (ReflTransGen)

variable {τ : Type} {g : Grammar τ} {state next a b : DerivationState τ} {word : List τ}
  {budget n m : Int} {table : Yields} {bound : Nat}

/-! ## Measuring the completions -/

/-- A pending derivation is measured by its symbols, unless it has no completion and something is
too large to be added to what is infinite. -/
theorem reach_cases (table : Yields) (length : Nat) (state : DerivationState τ) :
    reach table length state = .ok (Length.add (some (length + 1)) (stateYield table state)) ∨
      reach table length state = .error (.conversion .decimalTooLarge) ∧
        stateYield table state = none := by
  unfold reach
  rcases stateLength_cases table state with fits | ⟨fails, infinite, -⟩
  · rw [fits]
    rcases Length.plus_cases (some (length + 1)) (stateYield table state) with
      added | ⟨fails, k, -, ⟨-, infinite⟩ | ⟨finite, -⟩⟩
    · exact .inl added
    · exact .inr ⟨fails, infinite⟩
    · cases finite
  · rw [fails]
    exact .inr ⟨rfl, infinite⟩

theorem large_of_reach {length : Nat} {e : Error} (fails : reach table length state = .error e) :
    overflowBound ≤ length + 1 ∨
      (∃ part n, part <+: state ∧ stateYield table part = some n ∧ overflowBound ≤ n) ∨
      ∃ symbol ∈ state, ∃ n, symbolYield table symbol = some n ∧ overflowBound ≤ n := by
  unfold reach at fails
  cases measured : stateLength table state with
  | error e => exact .inr (large_of_stateLength measured)
  | ok l =>
    rw [measured] at fails
    rcases Length.plus_cases (some (length + 1)) l with
      added | ⟨-, k, large, ⟨same, -⟩ | ⟨finite, -⟩⟩
    · cases fails.symm.trans added
    · cases same
      exact .inl large
    · cases finite

/-! ## Derivations under way -/

variable [DecidableEq τ]

/-- The derivations that an enumeration looks at: they begin with a start symbol that has a word,
and after each step they can be completed within the budget. -/
inductive Underway (g : Grammar τ) (budget : Int) : DerivationState τ → List τ → Prop where
  | start {start : Ident} {word : List τ} (begins : g.start = some start)
      (inhabited : g.Derives [.nonterminal start] word) :
      g.Underway budget [.nonterminal start] []
  | step {state next : DerivationState τ} {word rest : List τ} {t : τ}
      (before : g.Underway budget state word) (step : (t, next) ∈ g.steps state)
      (completes : g.Derives next rest)
      (fits : ((word.length + 1 + rest.length : Nat) : Int) ≤ budget) :
      g.Underway budget next (word ++ [t])

/-- The shortest lengths are out of range, or a step of a derivation under way leads to a state
whose length is. -/
def Overflows (g : Grammar τ) (budget : Int) : Prop :=
  g.shortestLengths = .error (.conversion .decimalTooLarge) ∨
    ∃ table state word t next, g.shortestLengths = .ok table ∧ g.Underway budget state word ∧
      (word.length : Int) < budget ∧ (t, next) ∈ g.steps state ∧
      reach table word.length next = .error (.conversion .decimalTooLarge)

theorem Underway.mono (underway : g.Underway n state word) (le : n ≤ m) :
    g.Underway m state word := by
  induction underway with
  | start begins inhabited => exact .start begins inhabited
  | step _ step completes fits ih => exact .step ih step completes (fits.trans le)

/-- A larger budget does not help. -/
theorem Overflows.mono (overflows : g.Overflows n) (le : n ≤ m) : g.Overflows m := by
  rcases overflows with fails | ⟨table, state, word, t, next, found, underway, short, step, fails⟩
  · exact .inl fails
  · exact .inr
      ⟨table, state, word, t, next, found, underway.mono le, short.trans_le le, step, fails⟩

theorem Underway.inhabited (underway : g.Underway budget state word) :
    ∃ start word, g.start = some start ∧ g.Derives [.nonterminal start] word := by
  induction underway with
  | start begins inhabited => exact ⟨_, _, begins, inhabited⟩
  | step _ _ _ _ ih => exact ih

/-! ## What unfolding can bring together -/

omit [DecidableEq τ]

/-- The length of what stands before the first symbol without a word. -/
def headLength (table : Yields) : DerivationState τ → Nat
  | [] => 0
  | symbol :: rest => (symbolYield table symbol).elim 0 fun n => n + headLength table rest

theorem le_headLength_of_prefix {part : DerivationState τ} {n : Nat} (first : part <+: state)
    (value : stateYield table part = some n) : n ≤ headLength table state := by
  induction part generalizing state n with
  | nil =>
    cases value
    exact Nat.zero_le _
  | cons symbol part ih =>
    obtain ⟨after, rfl⟩ := first
    obtain ⟨own, k, here, rest, rfl⟩ := Length.add_eq_some_iff.1 value
    have here : symbolYield table symbol = some own := here
    rw [List.cons_append, headLength, here, Option.elim_some]
    exact Nat.add_le_add_left (ih (List.prefix_append _ _) rest) own

theorem headLength_of_stateYield {n : Nat} (value : stateYield table state = some n) :
    headLength table state = n := by
  induction state generalizing n with
  | nil =>
    cases value
    rfl
  | cons symbol state ih =>
    obtain ⟨own, k, here, rest, rfl⟩ := Length.add_eq_some_iff.1 value
    have here : symbolYield table symbol = some own := here
    rw [headLength, here, Option.elim_some, ih rest]

/-- No symbol with a word adds more than the bound. -/
def Bounds (table : Yields) (bound : Nat) : Prop :=
  0 < bound ∧ ∀ name n, table.of name = some n → n ≤ bound

theorem Bounds.headLength_cons_le (bounds : Bounds table bound) (symbol : Symbol τ)
    (rest : DerivationState τ) :
    headLength table (symbol :: rest) ≤ bound + headLength table rest := by
  rw [headLength]
  cases value : symbolYield table symbol with
  | none => exact Nat.zero_le _
  | some n =>
    refine Nat.add_le_add_right ?_ _
    cases symbol with
    | terminal t =>
      cases value
      exact bounds.1
    | nonterminal name => exact bounds.2 name n value

/-- A bound on what can stand behind the next terminal before the first symbol without a word. -/
noncomputable def span (g : Grammar τ) (bound : Nat) : DerivationState τ → Nat
  | [] => 0
  | .terminal _ :: rest => headLength g.yields rest
  | .nonterminal name :: rest =>
    max (bound * (g.rank name + 2) + headLength g.yields rest)
      (if name ∈ g.yields.nullable then span g bound rest else 0)

/-- Unfolding does not exceed the bound. A right-hand side adds at most two symbols with a word, and
where a nonterminal takes the left end from another one its rank is smaller. -/
theorem Unfolds.span_le (unfolds : g.Unfolds a b) (proper : g.Proper)
    (bounds : Bounds g.yields bound) : g.span bound b ≤ g.span bound a := by
  obtain ⟨name, rest, body, rule, rfl, rfl⟩ := unfolds_iff.1 unfolds
  have two : bound + bound ≤ bound * (g.rank name + 2) := by
    rw [← Nat.mul_two]
    exact Nat.mul_le_mul_left _ (Nat.le_add_left _ _)
  rw [span]
  cases body with
  | edge t follows =>
    refine le_max_of_le_left ?_
    cases follows with
    | none => exact Nat.le_add_left _ _
    | some name =>
      have added := bounds.headLength_cons_le (.nonterminal name) rest
      exact added.trans (Nat.add_le_add_right (by omega) _)
  | excursion opening inner closing =>
    refine le_max_of_le_left ?_
    have first := bounds.headLength_cons_le (.nonterminal inner) (.terminal closing :: rest)
    have second := bounds.headLength_cons_le (.terminal closing) rest
    exact first.trans (by omega)
  | epsilon =>
    have empty : name ∈ g.yields.nullable :=
      (g.mem_nullable proper.wellFormed.nodup).2 (.unfold rule .nil)
    rw [if_pos empty]
    exact le_max_right _ _
  | concat left right =>
    have smaller (other : Ident) (corner : g.Corner name other) :
        bound * (g.rank other + 2) + bound ≤ bound * (g.rank name + 2) := by
      rw [← Nat.mul_succ]
      exact Nat.mul_le_mul_left _ (Nat.add_le_add_right (rank_lt proper corner) 2)
    have first := smaller left ⟨_, rule, List.mem_cons_self⟩
    have added := bounds.headLength_cons_le (.nonterminal right) rest
    simp only [Body.symbols, List.cons_append, List.nil_append, span]
    refine max_le (le_max_of_le_left (by omega)) ?_
    by_cases skip : left ∈ g.yields.nullable
    · have second := smaller right ⟨_, rule, by simp [Body.symbols, leadingNames, skip]⟩
      rw [if_pos skip]
      refine max_le (le_max_of_le_left (by omega)) ?_
      by_cases empty : right ∈ g.yields.nullable
      · have both : name ∈ g.yields.nullable := by
          rw [g.mem_nullable proper.wellFormed.nodup] at skip empty ⊢
          exact .unfold rule (skip.append empty)
        rw [if_pos empty, if_pos both]
        exact le_max_right _ _
      · rw [if_neg empty]
        exact Nat.zero_le _
    · rw [if_neg skip]
      exact Nat.zero_le _

theorem span_le_of_path (proper : g.Proper) (bounds : Bounds g.yields bound)
    (path : ReflTransGen g.Unfolds a b) : g.span bound b ≤ g.span bound a := by
  induction path with
  | refl => exact le_rfl
  | tail _ unfolds ih => exact (unfolds.span_le proper bounds).trans ih

theorem span_nonterminal_le (bound : Nat) (name : Ident) :
    g.span bound [.nonterminal name] ≤ bound * (g.nonterminals.length + 2) := by
  have rank : g.rank name ≤ g.nonterminals.length := by
    rw [nonterminals, List.length_map]
    exact g.rank_le name
  simp only [span, headLength, ite_self, Nat.add_zero]
  exact max_le (Nat.mul_le_mul_left _ (Nat.add_le_add_right rank 2)) (Nat.zero_le _)

theorem span_le_of_stateYield {n : Nat} (value : stateYield g.yields state = some n) :
    g.span bound state ≤ bound * (g.nonterminals.length + 2) + n := by
  induction state generalizing n with
  | nil => exact Nat.zero_le _
  | cons symbol state ih =>
    obtain ⟨own, k, here, rest, rfl⟩ := Length.add_eq_some_iff.1 value
    have head := headLength_of_stateYield rest
    cases symbol with
    | terminal t =>
      rw [span, head]
      omega
    | nonterminal name =>
      have alone := g.span_nonterminal_le bound name
      simp only [span, headLength, ite_self, Nat.add_zero] at alone
      have first := (le_max_left _ _).trans alone
      rw [span, head]
      refine max_le (by omega) ?_
      split
      · exact (ih rest).trans (by omega)
      · exact Nat.zero_le _

/-! ## Grammars that are not huge -/

theorem approximates_yields (wellFormed : g.WellFormed) (found : g.shortestLengths = .ok table) :
    g.Approximates g.yields := by
  rcases shortestLengths_cases wellFormed with ⟨_, same, approximates, stable⟩ | ⟨fails, -⟩
  · rwa [← eq_yields_of_sweep approximates wellFormed.nodup stable]
  · cases found.symm.trans fails

theorem bounds_yields (wellFormed : g.WellFormed) (found : g.shortestLengths = .ok table) :
    Bounds g.yields (2 ^ g.nonterminals.length) := by
  refine ⟨Nat.two_pow_pos _, fun name n value => ?_⟩
  have approximates := approximates_yields wellFormed found
  have least := approximates.bounded name n value
  have few := g.yields.finites_le
  rw [← List.length_map (f := Prod.fst), keys_yields] at few
  have power := Nat.pow_le_pow_right Nat.two_pos few
  omega

variable [DecidableEq τ]

/-- What can stand behind the next terminal of a derivation under way. -/
theorem Underway.span_le (underway : g.Underway budget state word) (bound : Nat) :
    g.span bound state ≤ bound * (g.nonterminals.length + 2) + budget.toNat := by
  cases underway with
  | start begins inhabited => exact (g.span_nonterminal_le bound _).trans (Nat.le_add_right _ _)
  | step _ _ completes fits =>
    obtain ⟨k, value, short⟩ := exists_stateYield_of_derives completes
    exact (span_le_of_stateYield value).trans (by omega)

theorem lt_overflowBound_of_le_thousand {count length : Nat} (few : count ≤ 1000)
    (short : length < 2 ^ 1023) : 2 ^ count * (count + 2) + length < overflowBound := by
  have unit : 0 < (2 : Nat) ^ 970 := by positivity
  have power : 2 ^ count ≤ 2 ^ (30 + 970) := pow_le_pow_right₀ one_le_two few
  have product := Nat.mul_le_mul power (Nat.add_le_add_right few 2)
  have below := Nat.add_lt_add_of_le_of_lt product short
  rw [pow_add, show 1023 = 53 + 970 from rfl, pow_add] at below
  rw [Binary64.overflowBound_eq]
  generalize (2 : Nat) ^ 970 = x at unit below ⊢
  exact below.trans (by omega)

/-- Lengths are out of range only in grammars with more than a thousand nonterminals, or for words
that are out of range themselves. -/
theorem Overflows.large (overflows : g.Overflows budget) (proper : g.Proper) :
    1000 < g.nonterminals.length ∨ 2 ^ 1023 ≤ budget := by
  have wellFormed := proper.wellFormed
  rcases overflows with fails | ⟨table, state, word, t, next, found, underway, short, step, fails⟩
  · rcases shortestLengths_cases wellFormed with ⟨_, found, -⟩ | ⟨-, many⟩
    · cases fails.symm.trans found
    · exact .inl (by omega)
  by_contra! few
  obtain ⟨few, small⟩ := few
  have bounds := bounds_yields wellFormed found
  have head := (span_le_of_path proper bounds ((mem_steps proper).1 step)).trans
    (underway.span_le _)
  rw [span] at head
  have within : budget.toNat < 2 ^ 1023 := by
    rw [Int.toNat_lt' (by positivity), Nat.cast_pow]
    exact small
  have limit := lt_overflowBound_of_le_thousand few within
  rw [eq_yields_of_shortestLengths wellFormed found] at fails
  have bounded := bounds.2
  have positive := bounds.1
  generalize 2 ^ g.nonterminals.length = bound at *
  rcases large_of_reach fails with
    large | ⟨part, n, first, value, large⟩ | ⟨symbol, -, n, value, large⟩
  · omega
  · have below := le_headLength_of_prefix first value
    omega
  · have small : n ≤ bound := by
      cases symbol with
      | terminal t =>
        cases value
        exact positive
      | nonterminal name => exact bounded name n value
    have more : bound ≤ bound * (g.nonterminals.length + 2) :=
      Nat.le_mul_of_pos_right _ (Nat.succ_pos _)
    omega

end ZeroRun.Grammar
