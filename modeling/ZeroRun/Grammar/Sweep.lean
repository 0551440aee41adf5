import ZeroRun.Grammar.Basic

/-!
The lengths of shortest words, found in sweeps. A sweep goes through all productions in order. A
production that gives its left-hand side a shorter word is used at once, so that the productions
behind it build on it. Sweeps follow each other until one changes nothing.

An infinite length is a floating-point number, and only a length that has a nearest floating-point
number can be added to it.
-/
namespace ZeroRun

/-- A length that may be infinite, which is `none`. -/
abbrev Length := Option Nat

namespace Length

/-- Does a length exceed a bound? -/
def exceeds (l : Length) (bound : Int) : Bool :=
  match l with
  | some n => decide (bound < n)
  | none => true

/-- Can the length be added to an infinite one? -/
def hasFloat : Length → Bool
  | some n => (Number.int n).hasFloat
  | none => true

/-- The sum of two lengths; one that is added to an infinite one must not be too large. -/
def plus : Length → Length → Except Error Length
  | some m, some n => .ok (some (m + n))
  | a, b => if a.hasFloat && b.hasFloat then .ok none else .error (.conversion .decimalTooLarge)

/-- The sum of several lengths from left to right. -/
def total (ls : List Length) : Except Error Length :=
  ls.foldlM plus (some 0)

/-- Is a length smaller than another one? -/
def isLess : Length → Length → Bool
  | some m, some n => decide (m < n)
  | some _, none => true
  | none, _ => false

end Length

namespace Grammar
variable {τ : Type}

/-- A length for each nonterminal. -/
abbrev Yields := List (Ident × Length)

namespace Yields

/-- The length for a name; an unknown name derives nothing. -/
def of (table : Yields) (name : Ident) : Length :=
  (List.lookup name table).getD none

/-- The table with another length for a name. -/
def set (name : Ident) (length : Length) : Yields → Yields
  | [] => []
  | (key, old) :: table =>
    if name = key then (key, length) :: table else (key, old) :: set name length table

/-- The number of infinite lengths and the sum of the others. -/
def remaining (table : Yields) : Nat × Nat :=
  table.foldr (fun entry rest =>
    match entry.2 with
    | some n => (rest.1, n + rest.2)
    | none => (rest.1 + 1, rest.2)) (0, 0)

/-- Something has become shorter. -/
def Shrinks (before after : Yields) : Prop :=
  after.remaining.1 < before.remaining.1 ∨
    after.remaining.1 = before.remaining.1 ∧ after.remaining.2 < before.remaining.2

theorem Shrinks.trans {a b c : Yields} (first : Shrinks a b) (second : Shrinks b c) :
    Shrinks a c := by
  unfold Shrinks at *
  omega

theorem Shrinks.ne {a b : Yields} (shrinks : Shrinks a b) : b ≠ a := by
  rintro rfl
  unfold Shrinks at shrinks
  omega

theorem of_cons (name key : Ident) (old : Length) (table : Yields) :
    of ((key, old) :: table) name = if name = key then old else of table name := by
  unfold of
  rw [List.lookup_cons]
  by_cases same : name = key
  · simp [same]
  · simp [same, beq_false_of_ne same]

/-- A shorter length makes the table shrink, unless its name is not there. -/
theorem set_shrinks {name : Ident} {length : Length} {table : Yields}
    (less : length.isLess (table.of name)) :
    set name length table = table ∨ Shrinks table (set name length table) := by
  induction table with
  | nil => exact .inl rfl
  | cons entry table ih =>
    obtain ⟨key, old⟩ := entry
    rw [of_cons] at less
    rw [set]
    split
    · rename_i same
      rw [if_pos same] at less
      right
      cases length with
      | none => cases less
      | some n =>
        cases old <;> simp_all [Shrinks, remaining, Length.isLess]
    · rename_i other
      rw [if_neg other] at less
      rcases ih less with same | shrinks
      · exact .inl (by rw [same])
      · right
        cases old <;> simp only [Shrinks, remaining, List.foldr_cons] at shrinks ⊢ <;> omega

end Yields

/-- The length of a shortest word of a right-hand side, given lengths for the nonterminals. -/
def measure (table : Yields) (body : Body τ) : Except Error Length := do
  let inner ← Length.total (body.nonterminals.map table.of)
  Length.plus (some body.terminals.length) inner

/-- The table after a production has been looked at. -/
def shorten (table : Yields) (p : Production τ) : Except Error Yields := do
  let length ← measure table p.body
  return if length.isLess (table.of p.lhs) then table.set p.lhs length else table

/-- The table after all productions of a list have been looked at. -/
def sweep (productions : List (Production τ)) (table : Yields) : Except Error Yields :=
  productions.foldlM shorten table

theorem shorten_shrinks {table next : Yields} {p : Production τ}
    (done : shorten table p = .ok next) :
    next = table ∨ Yields.Shrinks table next := by
  unfold shorten at done
  cases found : measure table p.body with
  | error e => simp [found, bind, Except.bind] at done
  | ok length =>
    simp only [found, bind, Except.bind, pure, Except.pure, Except.ok.injEq] at done
    subst done
    split
    · rename_i less
      exact Yields.set_shrinks less
    · exact .inl rfl

theorem sweep_cons_eq_ok {p : Production τ} {ps : List (Production τ)} {table next : Yields} :
    sweep (p :: ps) table = .ok next ↔
      ∃ between, shorten table p = .ok between ∧ sweep ps between = .ok next := by
  unfold sweep
  rw [List.foldlM_cons]
  cases shorten table p <;> simp [bind, Except.bind]

/-- A sweep changes nothing or makes the table shrink. -/
theorem sweep_shrinks {productions : List (Production τ)} {table next : Yields}
    (done : sweep productions table = .ok next) : next = table ∨ Yields.Shrinks table next := by
  induction productions generalizing table with
  | nil =>
    cases done
    exact .inl rfl
  | cons p ps ih =>
    obtain ⟨between, first, rest⟩ := sweep_cons_eq_ok.1 done
    rcases shorten_shrinks first with rfl | early
    · exact ih rest
    · rcases ih rest with rfl | late
      · exact .inr early
      · exact .inr (early.trans late)

/-- Sweeps until one changes nothing. -/
def settle (productions : List (Production τ)) (table : Yields) : Except Error Yields :=
  match _swept : sweep productions table with
  | .error e => .error e
  | .ok next => if next = table then .ok table else settle productions next
termination_by table.remaining
decreasing_by
  rename_i changed
  rcases sweep_shrinks _swept with same | fewer | ⟨equal, smaller⟩
  · exact absurd same changed
  · exact Prod.Lex.left _ _ fewer
  · exact Prod.lex_def.2 (.inr ⟨equal, smaller⟩)

/-- The length of a shortest word for each nonterminal. -/
def shortestLengths (g : Grammar τ) : Except Error Yields :=
  settle g.allProductions (g.nonterminals.map fun name => (name, none))

/-- The length of a shortest word of a derivation state, given lengths for the nonterminals. -/
def stateLength (table : Yields) (state : DerivationState τ) : Except Error Length :=
  Length.total (state.map fun
    | .terminal _ => some 1
    | .nonterminal name => table.of name)

end Grammar
end ZeroRun
