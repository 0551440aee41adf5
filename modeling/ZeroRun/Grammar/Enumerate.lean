import ZeroRun.Grammar.Closure

/-!
The words of a grammar by increasing length. A layer holds all pending derivations that have
emitted the same number of terminals. A derivation is dropped only when even its shortest
completion would exceed the budget.

A `Cursor` is a place in the enumeration. It moves from one pending derivation to the next and hands
out words on the way. An `Enumeration` that is continued after a pause follows the changes that have
been made to the grammar in the meantime.
-/
namespace ZeroRun.Grammar
variable {τ : Type} [DecidableEq τ]

/-- A pending derivation: the symbols to derive and the word emitted so far. -/
abbrev Pending (τ : Type) := DerivationState τ × List τ

/-- The length of a shortest word that begins with `length` terminals and one more, after which the
state is to be derived. -/
def reach (table : Yields) (length : Nat) (state : DerivationState τ) : Except Error Length := do
  Length.plus (some (length + 1)) (← stateLength table state)

/-- Takes up the derivation after a step, unless it cannot be completed within the budget. -/
def enqueue (table : Yields) (budget : Int) (word : List τ) (upcoming : List (Pending τ))
    (step : Step τ) : Except Error (List (Pending τ)) := do
  if (← reach table word.length step.2).exceeds budget then return upcoming
  return addNew upcoming (step.2, word ++ [step.1])

/-- Takes up the derivations after all steps of a pending one. -/
def enqueueSteps (g : Grammar τ) (table : Yields) (budget : Int) (upcoming : List (Pending τ))
    (item : Pending τ) : Except Error (List (Pending τ)) :=
  (g.steps item.1).foldlM (enqueue table budget item.2) upcoming

/-- The grammar as an enumeration looks at it at one moment. -/
structure Snapshot (τ : Type) where
  grammar : Grammar τ
  lengths : Except Error Yields := grammar.shortestLengths
  order : Except Error Unit := grammar.checkLeftRecursion

/-- The shortest lengths, if derivations can be looked at. -/
def Snapshot.table (s : Snapshot τ) : Except Error Yields := do
  s.order
  s.lengths

/-- The place that an enumeration has reached. -/
structure Cursor (τ : Type) where
  budget : Nat
  length : Nat
  /-- The pending derivations of this layer that have not been looked at. -/
  waiting : List (Pending τ)
  /-- The derivation whose steps are to be taken. -/
  held : Option (Pending τ)
  /-- The words of this length that have been handed out. -/
  emitted : List (List τ)
  /-- The next layer as far as it is known. -/
  upcoming : List (Pending τ)

namespace Cursor

/-- The next layer with the steps of one more derivation; at the end of the budget no steps are
taken. -/
def withSteps (s : Snapshot τ) (c : Cursor τ) (item : Pending τ) :
    Except Error (List (Pending τ)) :=
  if c.length = c.budget then .ok c.upcoming
  else do s.grammar.enqueueSteps (← s.table) c.budget c.upcoming item

/-- One move: the steps of the derivation that is held, or else a look at the next one, whose word
may be handed out, or else the change to the next layer. There is no move at the end. -/
def move (s : Snapshot τ) (c : Cursor τ) : Except Error (Option (Option (List τ) × Cursor τ)) :=
  match c.held, c.waiting with
  | some item, _ => do
    return some (none, { c with held := none, upcoming := ← c.withSteps s item })
  | none, item :: waiting => do
    let _ ← s.table
    if s.grammar.completes item.1 && item.2 ∉ c.emitted then
      return some (some item.2,
        { c with waiting, held := some item, emitted := c.emitted ++ [item.2] })
    return some (none, { c with waiting, held := some item })
  | none, [] =>
    if c.upcoming.isEmpty || c.budget ≤ c.length then .ok none
    else
      .ok (some (none,
        { c with length := c.length + 1, waiting := c.upcoming, emitted := [], upcoming := [] }))

/-- The moves that a cursor can still make in its layer, with those that it makes for each
derivation. -/
def pace (c : Cursor τ) : Nat :=
  2 * c.waiting.length + c.held.toList.length

/-- A move stays in the layer and uses up a part of it, or ends the layer. -/
theorem move_decreases {s : Snapshot τ} {c c' : Cursor τ} {word : Option (List τ)}
    (moved : c.move s = .ok (some (word, c'))) :
    Prod.Lex (· < ·) (· < ·) (c'.budget - c'.length, c'.pace) (c.budget - c.length, c.pace) := by
  unfold move at moved
  split at moved
  · rename_i item held
    cases steps : c.withSteps s item with
    | error e => simp [steps, bind, Except.bind] at moved
    | ok upcoming =>
      simp only [steps, bind, Except.bind, pure, Except.pure, Except.ok.injEq, Option.some.injEq,
        Prod.mk.injEq] at moved
      rw [← moved.2]
      exact .right _ (by simp [pace, held])
  · rename_i item waiting held rest
    cases found : s.table with
    | error e => simp [found, bind, Except.bind] at moved
    | ok table =>
      simp only [found, bind, Except.bind, pure, Except.pure] at moved
      split at moved <;>
      · simp only [Except.ok.injEq, Option.some.injEq, Prod.mk.injEq] at moved
        rw [← moved.2]
        exact .right _ (by simp [pace, held, rest]; omega)
  · split at moved
    · cases moved
    · rename_i more
      simp only [Except.ok.injEq, Option.some.injEq, Prod.mk.injEq] at moved
      rw [← moved.2]
      refine .left _ _ ?_
      simp only [Bool.or_eq_true, decide_eq_true_eq, not_or, Nat.not_le] at more
      simp only
      omega

end Cursor

/-- An enumeration before, during and after its course. -/
inductive Enumeration (τ : Type) where
  | fresh (budget : Int)
  | open (cursor : Cursor τ)
  | closed

/-- Moves on until `limit` items have been collected, or to the end. Each word is shown to `hear`,
which may make an item of it. -/
def Cursor.collect {σ β : Type} (s : Snapshot τ) (hear : σ → List τ → σ × Option β) (heard : σ)
    (limit : Option Nat) (c : Cursor τ) : Except Error (List β) × Enumeration τ :=
  if limit = some 0 then (.ok [], .open c)
  else
    match _moved : c.move s with
    | .error e => (.error e, .closed)
    | .ok none => (.ok [], .closed)
    | .ok (some (none, c')) => collect s hear heard limit c'
    | .ok (some (some word, c')) =>
      match hear heard word with
      | (heard', none) => collect s hear heard' limit c'
      | (heard', some item) =>
        let rest := collect s hear heard' (limit.map (· - 1)) c'
        (rest.1.map (item :: ·), rest.2)
termination_by (c.budget - c.length, c.pace)
decreasing_by all_goals exact move_decreases _moved

/-- The place at which an enumeration begins. -/
def Cursor.first (budget : Nat) (state : DerivationState τ) : Cursor τ :=
  ⟨budget, 0, [(state, [])], none, [], []⟩

/-- What is made of the further words of an enumeration, up to a limit. An error ends the
enumeration and hides the words before it. If nothing is wanted the grammar is not looked at. -/
def Enumeration.collect {σ β : Type} (g : Grammar τ) (hear : σ → List τ → σ × Option β) (heard : σ)
    (limit : Option Nat) (e : Enumeration τ) : Except Error (List β) × Enumeration τ :=
  match e with
  | .closed => (.ok [], .closed)
  | .open c => c.collect { grammar := g } hear heard limit
  | .fresh budget =>
    if limit = some 0 then (.ok [], .fresh budget)
    else
      match g.initialState with
      | .error e => (.error e, .closed)
      | .ok none => (.ok [], .closed)
      | .ok (some state) =>
        if budget < 0 then (.ok [], .closed)
        else (Cursor.first budget.toNat state).collect { grammar := g } hear heard limit

/-- Every word is an item. -/
def each (heard : Unit) (word : List τ) : Unit × Option (List τ) :=
  (heard, some word)

/-- Up to `count` further words, with the grammar as it is now. -/
def Enumeration.take (g : Grammar τ) (count : Nat) (e : Enumeration τ) :
    Except Error (List (List τ)) × Enumeration τ :=
  e.collect g each () (some count)

/-- The words of length at most `budget`, by increasing length, or the first `limit` of them. -/
def derive (g : Grammar τ) (budget : Int) (limit : Option Nat := none) :
    Except Error (List (List τ)) :=
  ((Enumeration.fresh budget).collect g each () limit).1

end ZeroRun.Grammar
