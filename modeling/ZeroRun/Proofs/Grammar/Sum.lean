import Mathlib
import ZeroRun.Grammar.Sweep
import ZeroRun.Proofs.Binary64
import ZeroRun.Proofs.Grammar.Yield

/-! Lengths added up from left to right. The result is the sum, unless an infinite length is added
to one that is out of the range of the floating-point numbers. A right-hand side then is a
concatenation, and a derivation state has no words. -/
namespace ZeroRun

open Binary64 (overflowBound)

/-! ## Sums -/

namespace Length

theorem hasFloat_iff {n : Nat} : hasFloat (some n) = true ↔ n < overflowBound := by
  have large := Binary64.ofInt?_eq_none_iff (n := n)
  rw [Int.natAbs_natCast] at large
  rw [hasFloat, Number.hasFloat, Number.toFloat?, Option.isSome_iff_ne_none, Ne, large, Nat.not_le]

@[simp]
theorem hasFloat_none : hasFloat none = true := rfl

/-- A length that is too large to be added to an infinite one meets one. -/
def Clash (a b : Length) : Prop :=
  ∃ n, overflowBound ≤ n ∧ (a = some n ∧ b = none ∨ a = none ∧ b = some n)

theorem plus_cases (a b : Length) :
    plus a b = .ok (add a b) ∨
      plus a b = .error (.conversion .decimalTooLarge) ∧ Clash a b := by
  have small (n : Nat) (float : hasFloat (some n) = false) : overflowBound ≤ n := by
    rw [← Nat.not_lt, ← hasFloat_iff]
    simp [float]
  rcases a with _ | m <;> rcases b with _ | n
  · exact .inl rfl
  · cases float : hasFloat (some n) with
    | true => exact .inl (if_pos (by simp [float]))
    | false => exact .inr ⟨if_neg (by simp [float]), n, small n float, .inr ⟨rfl, rfl⟩⟩
  · cases float : hasFloat (some m) with
    | true => exact .inl (if_pos (by simp [float]))
    | false => exact .inr ⟨if_neg (by simp [float]), m, small m float, .inl ⟨rfl, rfl⟩⟩
  · exact .inl rfl

/-- Small lengths can be added to all others. -/
theorem plus_of_lt {m : Nat} (small : m < overflowBound) (b : Length) :
    plus (some m) b = .ok (add (some m) b) := by
  rcases plus_cases (some m) b with fits | ⟨-, n, large, ⟨same, -⟩ | ⟨same, -⟩⟩
  · exact fits
  · cases same
    omega
  · cases same

theorem plus_none_of_le {m : Nat} (large : overflowBound ≤ m) :
    plus (some m) none = .error (.conversion .decimalTooLarge) := by
  refine if_neg ?_
  rw [hasFloat_none, Bool.and_true, hasFloat_iff]
  omega

theorem add_assoc (a b c : Length) : add (add a b) c = add a (add b c) := by
  cases a <;> cases b <;> cases c <;> simp [add, Nat.add_assoc]

@[simp]
theorem zero_add (a : Length) : add (some 0) a = a := by
  cases a <;> simp [add]

theorem sum_cons (l : Length) (ls : List Length) : sum (l :: ls) = add l (sum ls) := rfl

/-- Adding up from left to right gives the sum, or there is an infinite length and a part that is
too large to be added to it. -/
theorem foldlM_plus_cases (ls : List Length) (start : Length) :
    ls.foldlM plus start = .ok (add start (sum ls)) ∨
      ls.foldlM plus start = .error (.conversion .decimalTooLarge) ∧ add start (sum ls) = none ∧
        ((∃ part n, part <+: ls ∧ add start (sum part) = some n ∧ overflowBound ≤ n) ∨
          ∃ n, some n ∈ ls ∧ overflowBound ≤ n) := by
  induction ls generalizing start with
  | nil => exact .inl (by cases start <;> rfl)
  | cons l ls ih =>
    rw [List.foldlM_cons, sum_cons, ← add_assoc]
    rcases plus_cases start l with fits | ⟨fails, n, large, clash⟩
    · rw [fits]
      rcases ih (add start l) with done | ⟨fails, infinite, part | ⟨n, mem, large⟩⟩
      · exact .inl done
      · obtain ⟨part, n, first, value, large⟩ := part
        refine .inr ⟨fails, infinite, .inl ⟨l :: part, n, ?_, ?_, large⟩⟩
        · exact List.cons_prefix_cons.2 ⟨rfl, first⟩
        · rwa [sum_cons, ← add_assoc]
      · exact .inr ⟨fails, infinite, .inr ⟨n, List.mem_cons_of_mem _ mem, large⟩⟩
    · rw [fails]
      right
      rcases clash with ⟨rfl, rfl⟩ | ⟨rfl, rfl⟩
      · exact ⟨rfl, rfl, .inl ⟨[], n, List.nil_prefix, rfl, large⟩⟩
      · exact ⟨rfl, rfl, .inr ⟨n, List.mem_cons_self, large⟩⟩

theorem total_cases (ls : List Length) :
    total ls = .ok (sum ls) ∨
      total ls = .error (.conversion .decimalTooLarge) ∧ sum ls = none ∧
        ∃ part n, part <:+: ls ∧ sum part = some n ∧ overflowBound ≤ n := by
  have cases := foldlM_plus_cases ls (some 0)
  simp only [zero_add] at cases
  rcases cases with done | ⟨fails, infinite, ⟨part, n, first, value, large⟩ | ⟨n, mem, large⟩⟩
  · exact .inl done
  · exact .inr ⟨fails, infinite, part, n, first.isInfix, value, large⟩
  · refine .inr ⟨fails, infinite, [some n], n, ?_, rfl, large⟩
    exact (List.singleton_infix_iff _ _).2 mem

theorem two_lt_overflowBound : 2 < overflowBound := by
  have unit : 0 < 2 ^ 970 := by positivity
  rw [Binary64.overflowBound_eq]
  omega

theorem zero_plus (a : Length) : plus (some 0) a = .ok a := by
  have small := two_lt_overflowBound
  rw [plus_of_lt (by omega), zero_add]

theorem sum_singleton (a : Length) : sum [a] = a := by
  cases a <;> rfl

theorem sum_pair (a b : Length) : sum [a, b] = add a b := by
  rw [sum_cons, sum_singleton]

theorem total_singleton (a : Length) : total [a] = .ok (sum [a]) := by
  rw [total, List.foldlM_cons, zero_plus, sum_singleton]
  rfl

theorem total_pair (a b : Length) : total [a, b] = plus a b := by
  rw [total, List.foldlM_cons, zero_plus]
  exact bind_pure (plus a b)

theorem isLess_eq_false_iff {a b : Length} : isLess a b = false ↔ b.value ≤ a.value := by
  cases a <;> cases b <;> simp [isLess]

end Length

/-! ## Right-hand sides and derivation states -/

namespace Grammar
variable {τ : Type}

theorem stateYield_symbols (table : Yields) (body : Body τ) :
    stateYield table body.symbols =
      Length.add (some body.terminals.length) (Length.sum (body.nonterminals.map table.of)) := by
  cases body with
  | edge t next => cases next <;> rfl
  | excursion opening inner closing =>
    simp only [stateYield, Body.symbols, Body.terminals, Body.nonterminals, List.map_cons,
      List.map_nil, Length.sum_cons]
    cases table.of inner with
    | none => rfl
    | some n => simp [Length.add, Length.sum, Nat.add_comm, Nat.add_left_comm]
  | concat left right => exact (Length.zero_add _).symm
  | epsilon => rfl

theorem measure_of_total {table : Yields} {body : Body τ}
    (found : Length.total (body.nonterminals.map table.of) =
      .ok (Length.sum (body.nonterminals.map table.of))) :
    measure table body = .ok (stateYield table body.symbols) := by
  have few : body.terminals.length ≤ 2 := by cases body <;> simp [Body.terminals]
  rw [measure, found, stateYield_symbols]
  exact Length.plus_of_lt (few.trans_lt Length.two_lt_overflowBound) _

/-- A right-hand side is measured by its symbols, unless it is a concatenation whose parts cannot be
added. -/
theorem measure_cases (table : Yields) (body : Body τ) :
    measure table body = .ok (stateYield table body.symbols) ∨
      measure table body = .error (.conversion .decimalTooLarge) ∧
        ∃ left right, body = .concat left right ∧
          Length.Clash (table.of left) (table.of right) := by
  cases body with
  | edge t next =>
    left
    apply measure_of_total
    cases next with
    | none => rfl
    | some next => exact Length.total_singleton _
  | excursion opening inner closing =>
    left
    apply measure_of_total
    exact Length.total_singleton _
  | concat left right =>
    rcases Length.plus_cases (table.of left) (table.of right) with fits | ⟨fails, clash⟩
    · left
      apply measure_of_total
      rw [Body.nonterminals, List.map_cons, List.map_singleton, Length.total_pair, fits,
        Length.sum_pair]
    · refine .inr ⟨?_, left, right, rfl, clash⟩
      rw [measure, Body.nonterminals, List.map_cons, List.map_singleton, Length.total_pair, fails]
      rfl
  | epsilon => exact .inl rfl

/-- What a symbol adds to the length of a word. -/
def symbolYield (table : Yields) : Symbol τ → Length
  | .terminal _ => some 1
  | .nonterminal name => table.of name

/-- If a derivation state cannot be measured, then its first symbols or one of them are too large to
be added to what is infinite. -/
theorem large_of_stateLength {table : Yields} {state : DerivationState τ} {e : Error}
    (fails : stateLength table state = .error e) :
    (∃ part n, part <+: state ∧ stateYield table part = some n ∧ overflowBound ≤ n) ∨
      ∃ symbol ∈ state, ∃ n, symbolYield table symbol = some n ∧ overflowBound ≤ n := by
  have cases := Length.foldlM_plus_cases (state.map (symbolYield table)) (some 0)
  rcases cases with done | ⟨-, -, ⟨part, n, first, value, large⟩ | ⟨n, mem, large⟩⟩
  · cases fails.symm.trans done
  · obtain ⟨after, whole⟩ := first
    obtain ⟨front, back, rfl, rfl, -⟩ := List.map_eq_append_iff.1 whole.symm
    rw [Length.zero_add] at value
    exact .inl ⟨front, n, List.prefix_append _ _, value, large⟩
  · obtain ⟨symbol, inside, value⟩ := List.mem_map.1 mem
    exact .inr ⟨symbol, inside, n, value, large⟩

/-- A derivation state is measured by its symbols, unless it derives no word and a part of it is too
large to be added to what is infinite. -/
theorem stateLength_cases (table : Yields) (state : DerivationState τ) :
    stateLength table state = .ok (stateYield table state) ∨
      stateLength table state = .error (.conversion .decimalTooLarge) ∧
        stateYield table state = none ∧
        ∃ part n, part <:+: state ∧ stateYield table part = some n ∧ overflowBound ≤ n := by
  unfold stateLength stateYield
  rcases Length.total_cases (state.map _) with
    fits | ⟨fails, infinite, part, n, inside, value, large⟩
  · exact .inl fits
  · refine .inr ⟨fails, infinite, ?_⟩
    obtain ⟨before, after, whole⟩ := inside
    obtain ⟨front, back, rfl, front_eq, rfl⟩ := List.map_eq_append_iff.1 whole.symm
    obtain ⟨outer, part, rfl, rfl, rfl⟩ := List.map_eq_append_iff.1 front_eq
    exact ⟨part, n, ⟨outer, back, rfl⟩, value, large⟩

end Grammar
end ZeroRun
