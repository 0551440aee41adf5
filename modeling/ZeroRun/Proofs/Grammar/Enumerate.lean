import Mathlib
import ZeroRun.Proofs.Grammar.Cursor
import ZeroRun.Proofs.Grammar.Doubling

/-! The words of a grammar by increasing length. What is derived is what a cursor hands out on its
way through all layers, so it is the language up to the budget, unless a length is out of range. And
an enumeration that is interrupted goes on where it was. -/
namespace ZeroRun.Grammar
variable {τ : Type} [DecidableEq τ] {g : Grammar τ} {table : Yields} {budget : Int} {start : Ident}

omit [DecidableEq τ] in
theorem isEmpty_eq (wellFormed : g.WellFormed) (found : g.shortestLengths = .ok table)
    (begins : g.start = some start) : g.isEmpty = .ok (g.yields.of start).isNone := by
  rw [isEmpty, begins]
  simp only [found, eq_yields_of_shortestLengths wellFormed found]
  rfl

omit [DecidableEq τ] in
theorem initialState_of_error {e : Error} (begins : g.start = some start)
    (fails : g.shortestLengths = .error e) : g.initialState = .error e := by
  have empty : g.isEmpty = .error e := by
    rw [isEmpty, begins]
    simp only [fails]
    rfl
  rw [initialState, empty]
  rfl

omit [DecidableEq τ] in
theorem initialState_eq (proper : g.Proper) (found : g.shortestLengths = .ok table)
    (begins : g.start = some start) :
    g.initialState =
      .ok (if (g.yields.of start).isSome then some [.nonterminal start] else none) := by
  have accepted := proper.checkLeftRecursion found
  rw [initialState, isEmpty_eq proper.wellFormed found begins, accepted, begins]
  cases g.yields.of start <;> rfl

theorem derive_of_error {e : Error} (fails : g.initialState = .error e) (budget : Int) :
    g.derive budget = .error e := by
  simp only [derive, Enumeration.collect, if_neg (Option.some_ne_none 0).symm, fails]

theorem derive_of_initialState {first : Option (DerivationState τ)}
    (begins : g.initialState = .ok first) (budget : Int) :
    g.derive budget = first.elim (.ok []) fun state => if budget < 0 then .ok [] else
      (Cursor.first budget.toNat state).words { grammar := g } := by
  cases first with
  | none => simp only [derive, Enumeration.collect, if_neg (Option.some_ne_none 0).symm, begins,
      Option.elim_none]
  | some state =>
    simp only [derive, Enumeration.collect, if_neg (Option.some_ne_none 0).symm, begins,
      Option.elim_some]
    split <;> rfl

/-- What an enumeration collects is made of the words that it derives. -/
theorem collect_fresh {σ β : Type} (hear : σ → List τ → σ × Option β) (state : σ) (budget : Int) :
    ((Enumeration.fresh budget).collect g hear state none).1 =
      (g.derive budget).map (Cursor.heard hear state) := by
  have unlimited : (none : Option Nat) ≠ some 0 := by simp
  cases begins : g.initialState with
  | error e =>
    rw [derive_of_error begins]
    simp only [Enumeration.collect, if_neg unlimited, begins, Except.map]
  | ok first =>
    rw [derive_of_initialState begins]
    cases first with
    | none =>
      simp only [Enumeration.collect, if_neg unlimited, begins, Option.elim_none, Except.map,
        Cursor.heard]
    | some first =>
      simp only [Enumeration.collect, if_neg unlimited, begins, Option.elim_some]
      split
      · rfl
      · exact Cursor.collect_eq_map_words hear state _

/-- The words up to the budget, layer after layer. -/
noncomputable def enumerated (g : Grammar τ) (start : Ident) (budget : Int) : List (List τ) :=
  if (g.yields.of start).isSome && 0 ≤ budget then
    g.wordsFrom g.yields budget (budget.toNat + 1) [([.nonterminal start], [])]
  else []

/-- The words are those of the language up to the budget, by increasing length. -/
theorem enumerated_exact (proper : g.Proper) (start : Ident) (budget : Int) :
    (g.enumerated start budget).Pairwise (fun u v => u.length ≤ v.length) ∧
      (g.enumerated start budget).Nodup ∧ ∀ word, word ∈ g.enumerated start budget ↔
        g.Derives [.nonterminal start] word ∧ (word.length : Int) ≤ budget := by
  unfold enumerated
  split
  · rename_i some
    simp only [Bool.and_eq_true, decide_eq_true_eq] at some
    have last : ((0 + (budget.toNat + 1) : Nat) : Int) = budget + 1 := by omega
    obtain ⟨ordered, nodup, words⟩ :=
      (g.pends_start [.nonterminal start] budget).wordsFrom proper last
    refine ⟨ordered, nodup, fun word => (words word).trans ?_⟩
    exact and_congr_right fun _ => and_iff_right (Nat.zero_le _)
  · rename_i none
    refine ⟨.nil, .nil, fun word => ⟨nofun, ?_⟩⟩
    rintro ⟨derives, short⟩
    refine absurd ?_ none
    simp only [Bool.and_eq_true, decide_eq_true_eq]
    exact ⟨(g.isSome_yields_of).2 ⟨word, derives⟩, by omega⟩

/-- What an enumeration without a limit comes to. -/
theorem derive_cases (proper : g.Proper) (begins : g.start = some start) (budget : Int) :
    (g.derive budget = .ok (g.enumerated start budget) ∧ ¬ g.Overflows budget) ∨
      g.derive budget = .error (.conversion .decimalTooLarge) ∧ g.Overflows budget := by
  have wellFormed := proper.wellFormed
  rcases shortestLengths_cases wellFormed with ⟨table, found, -⟩ | ⟨fails, -⟩
  · have same := eq_yields_of_shortestLengths wellFormed found
    subst same
    have overflows : g.Overflows budget ↔ ∃ state word t next, g.Underway budget state word ∧
        (word.length : Int) < budget ∧ (t, next) ∈ g.steps state ∧
        reach g.yields word.length next = .error (.conversion .decimalTooLarge) := by
      simp only [Overflows, found, reduceCtorEq, false_or, Except.ok.injEq, exists_and_left,
        exists_eq_left']
    rw [derive_of_initialState (initialState_eq proper found begins), enumerated]
    by_cases inhabited : (g.yields.of start).isSome = true
    · rw [if_pos inhabited, Option.elim_some]
      by_cases negative : budget < 0
      · rw [if_pos negative, if_neg (by simp; omega)]
        refine .inl ⟨rfl, fun bad => ?_⟩
        obtain ⟨state, word, t, next, -, short, -⟩ := overflows.1 bad
        omega
      · rw [if_neg negative, if_pos (by simp [inhabited]; omega)]
        obtain ⟨b, rfl⟩ := Int.eq_ofNat_of_zero_le (not_lt.1 negative)
        have snapshot : Snapshot.table { grammar := g } = .ok g.yields := by
          simp only [Snapshot.table, proper.checkLeftRecursion found, found]
          rfl
        have holds (state : DerivationState τ) (word : List τ) :
            (state, word) ∈ [([Symbol.nonterminal start], [])] ↔
              g.Underway b state word ∧ word.length = 0 := by
          rw [List.mem_singleton, Prod.mk.injEq]
          constructor
          · rintro ⟨rfl, rfl⟩
            obtain ⟨word, derives⟩ := (g.isSome_yields_of).1 inhabited
            exact ⟨.start begins derives, rfl⟩
          · rintro ⟨underway, size⟩
            cases underway with
            | start same =>
              cases begins.symm.trans same
              exact ⟨rfl, rfl⟩
            | step => simp at size
        have cases := words_cases (s := { grammar := g }) snapshot (Nat.zero_add b)
          [([.nonterminal start], [])]
        rw [stumbles_iff holds] at cases
        simp only [Nat.zero_le, Nat.zero_add, true_and] at cases
        rw [overflows]
        simp only [Int.toNat_natCast, Nat.cast_lt]
        exact cases
    · rw [if_neg inhabited, Option.elim_none, if_neg (by simp [inhabited])]
      refine .inl ⟨rfl, fun bad => inhabited ?_⟩
      obtain ⟨state, word, t, next, underway, -⟩ := overflows.1 bad
      obtain ⟨first, word, same, derives⟩ := underway.inhabited
      cases begins.symm.trans same
      exact (g.isSome_yields_of).2 ⟨word, derives⟩
  · exact .inr ⟨derive_of_error (initialState_of_error begins fails) budget, .inl fails⟩

/-- A grammar that is not left-recursive enumerates its language: the words up to a length, by
increasing length and without repetition, and no other words. The enumeration fails if and only if a
length is out of range in it, for which the grammar needs more than a thousand nonterminals or the
budget is out of range itself. -/
theorem derive_exact (built : g.Built) (begins : g.start = some start)
    (forward : ¬ g.LeftRecursive) (budget : Int) :
    (∃ words, g.derive budget = .ok words ∧ ¬ g.Overflows budget ∧
      words.Pairwise (fun u v => u.length ≤ v.length) ∧ words.Nodup ∧ ∀ word, word ∈ words ↔
        word ∈ (g.contextFree start).language ∧ (word.length : Int) ≤ budget) ∨
    (g.derive budget = .error (.conversion .decimalTooLarge) ∧ g.Overflows budget ∧
      (1000 < g.nonterminals.length ∨ 2 ^ 1023 ≤ budget)) := by
  have wellFormed := built.wellFormed
  have proper := wellFormed.proper forward
  rcases derive_cases proper begins budget with ⟨derived, clear⟩ | ⟨fails, overflows⟩
  · obtain ⟨ordered, nodup, words⟩ := enumerated_exact proper start budget
    refine .inl ⟨_, derived, clear, ordered, nodup, fun word => ?_⟩
    rw [words, mem_language wellFormed.nodup]
  · exact .inr ⟨fails, overflows, overflows.large proper⟩

theorem not_leftRecursive_brackets : ¬ brackets.LeftRecursive :=
  (proper_of_checkLeftRecursion built_brackets.wellFormed (by cbv)).not_leftRecursive

/-- Up to two terminals there is one pair of brackets; with a letter between them it is too long. -/
theorem derive_exact_brackets : ∃ words, brackets.derive 2 = .ok words ∧ words.Nodup ∧
    ['(', ')'] ∈ words ∧ ['(', 'a', ')'] ∉ words := by
  rcases derive_exact built_brackets rfl not_leftRecursive_brackets 2 with
    ⟨words, derived, -, -, nodup, exact_words⟩ | ⟨-, -, many | long⟩
  · refine ⟨words, derived, nodup, (exact_words _).2 ⟨?_, by decide⟩, fun mem => ?_⟩
    · apply (mem_language built_brackets.wellFormed.nodup).2
      have empty : Body.epsilon ∈ brackets.bodies (.int 0) := .tail _ (.head _)
      exact .unfold (.head _) (.unfold (.head _) (.emit '(' (.unfold empty (.emit ')'
        (.unfold empty .nil)))))
    · have short := ((exact_words _).1 mem).2
      exact absurd short (by decide)
  · exact absurd many (by decide)
  · exact absurd long (not_le.2 (lt_self_pow₀ (by decide) (by decide)))

/-- With 1026 nonterminals no word need be enumerated, although the language has one. -/
theorem derive_thousand_doublings :
    (doublingFromZero 1024).WellFormed ∧ ¬ (doublingFromZero 1024).LeftRecursive ∧
      (doublingFromZero 1024).Generates ['t'] ∧
      ∀ budget, (doublingFromZero 1024).derive budget = .error (.conversion .decimalTooLarge) := by
  refine ⟨wellFormed_doublingFromZero 1024, not_leftRecursive_doublingFromZero 1024,
    generates_doublingFromZero_iff.2 rfl, fun budget => ?_⟩
  exact derive_of_error (initialState_of_error rfl shortestLengths_doublingFromZero) budget

/-! ## Going on after an interruption -/

namespace Enumeration
variable {found : List (List τ)}

/-- An enumeration that begins fails at once, has nothing to hand out, or goes on with a cursor. -/
theorem take_fresh_cases (g : Grammar τ) (budget : Int) :
    (∃ e, g.derive budget = .error e ∧
      ∀ count, (fresh budget).take g (count + 1) = (.error e, .closed)) ∨
    (g.derive budget = .ok [] ∧ ∀ count, (fresh budget).take g (count + 1) = (.ok [], .closed)) ∨
    ∃ c, g.derive budget = Cursor.words { grammar := g } c ∧
      ∀ count, (fresh budget).take g (count + 1) =
        c.collect { grammar := g } each () (some (count + 1)) := by
  have wanted (count : Nat) : ¬ some (count + 1) = some 0 := by simp
  cases begins : g.initialState with
  | error e =>
    refine .inl ⟨e, derive_of_error begins budget, fun count => ?_⟩
    simp only [take, collect, if_neg (wanted count), begins]
  | ok state =>
    right
    rw [derive_of_initialState begins]
    cases state with
    | none =>
      refine .inl ⟨rfl, fun count => ?_⟩
      simp only [take, collect, if_neg (wanted count), begins]
    | some state =>
      by_cases negative : budget < 0
      · refine .inl ⟨if_pos negative, fun count => ?_⟩
        simp only [take, collect, if_neg (wanted count), begins, if_pos negative]
      · refine .inr ⟨_, if_neg negative, fun count => ?_⟩
        simp only [take, collect, if_neg (wanted count), begins, if_neg negative]

/-- The words are handed out in portions, one after another. -/
theorem take_add {e : Enumeration τ} {count : Nat} (first : (e.take g count).1 = .ok found)
    (more : Nat) :
    e.take g (count + more) =
      (((e.take g count).2.take g more).1.map (found ++ ·),
        ((e.take g count).2.take g more).2) := by
  cases e with
  | closed =>
    cases first
    rfl
  | «open» c => exact Cursor.collect_add first more
  | fresh budget =>
    cases count with
    | zero =>
      have idle : (fresh budget).take g 0 = (.ok [], .fresh budget) := rfl
      rw [idle] at first ⊢
      cases first
      rw [Nat.zero_add]
      generalize (fresh budget).take g more = outcome
      obtain ⟨_ | _, after⟩ := outcome <;> rfl
    | succ count =>
      rcases take_fresh_cases g budget with ⟨e, -, fails⟩ | ⟨-, ends⟩ | ⟨c, -, goes⟩
      · rw [fails] at first
        cases first
      · rw [ends] at first
        cases first
        rw [Nat.add_right_comm, ends, ends]
        rfl
      · rw [goes] at first
        rw [Nat.add_right_comm, goes, goes, Nat.add_right_comm]
        exact Cursor.collect_add first more

/-- The words that are handed out first are those that are derived at once. -/
theorem take_fresh (derived : g.derive budget = .ok found) (count : Nat) :
    ((fresh budget).take g count).1 = .ok (found.take count) := by
  cases count with
  | zero => rfl
  | succ count =>
    rcases take_fresh_cases g budget with ⟨e, fails, -⟩ | ⟨nothing, ends⟩ | ⟨c, words, goes⟩
    · cases derived.symm.trans fails
    · cases derived.symm.trans nothing
      rw [ends, List.take_nil]
    · rw [goes]
      exact Cursor.collect_take (words ▸ derived) _

end Enumeration

end ZeroRun.Grammar
