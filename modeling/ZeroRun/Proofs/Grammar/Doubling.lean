import Mathlib
import ZeroRun.Proofs.Grammar.LeftRecursion

/-! Grammars whose words double. Each nonterminal has words twice as long as the one before it, so
the lengths leave the range of the floating-point numbers after a thousand nonterminals. One more
nonterminal without words makes the sweeps fail there. -/
namespace ZeroRun.Grammar

open Binary64 (overflowBound)

/-- The right-hand side of the number `i`: a letter for zero, and the number before it twice for the
others. -/
def doubled : Nat → Body Char
  | 0 => .edge 't' none
  | i + 1 => .concat (.int i) (.int i)

/-- The numbers up to `n`, of which each has words twice as long as the one before it, and a
nonterminal without words that begins with the last of them. -/
def doubling (n : Nat) : Grammar Char where
  name := .text "grammar"
  rules := (List.range (n + 1)).map (fun i : Nat => (.int i, [doubled i])) ++
    [(.text "none", [.concat (.int n) (.text "none")])]
  terminals := ['t']

variable {n : Nat}

theorem nonterminals_doubling (n : Nat) :
    (doubling n).nonterminals =
      (List.range (n + 1)).map (fun i : Nat => Ident.int i) ++ [.text "none"] := by
  simp [nonterminals, doubling, Function.comp_def]

theorem nodup_doubling (n : Nat) : (doubling n).nonterminals.Nodup := by
  rw [nonterminals_doubling]
  refine List.Nodup.append ?_ (List.nodup_singleton _) (by simp)
  refine List.nodup_range.map fun i j same => ?_
  simpa using same

theorem bodies_doubling {i : Nat} (small : i ≤ n) : (doubling n).bodies (.int i) = [doubled i] := by
  have rule : (Ident.int i, [doubled i]) ∈ (doubling n).rules := by
    refine List.mem_append_left _ (List.mem_map.2 ⟨i, ?_, rfl⟩)
    exact List.mem_range.2 (by omega)
  rw [bodies, (lookup_eq_some_iff (nodup_doubling n)).2 rule, Option.getD_some]

theorem bodies_doubling_none :
    (doubling n).bodies (.text "none") = [.concat (.int n) (.text "none")] := by
  have rule : (Ident.text "none", [Body.concat (.int n) (.text "none")]) ∈ (doubling n).rules :=
    List.mem_append_right _ (.head _)
  rw [bodies, (lookup_eq_some_iff (nodup_doubling n)).2 rule, Option.getD_some]

theorem wellFormed_doubling (n : Nat) : (doubling n).WellFormed := by
  refine ⟨nodup_doubling n, fun rule mem body inside other mentioned => ?_⟩
  rw [nonterminals_doubling]
  rcases List.mem_append.1 mem with number | last
  · obtain ⟨i, range, rfl⟩ := List.mem_map.1 number
    rw [List.mem_singleton.1 inside] at mentioned
    cases i with
    | zero => cases mentioned
    | succ i =>
      refine List.mem_append_left _ (List.mem_map.2 ⟨i, ?_, ?_⟩)
      · have below := List.mem_range.1 range
        exact List.mem_range.2 (by omega)
      · simpa [doubled, Body.nonterminals, eq_comm] using mentioned
  · rw [List.mem_singleton.1 last] at inside
    rw [List.mem_singleton.1 inside] at mentioned
    rcases List.mem_cons.1 mentioned with rfl | rest
    · exact List.mem_append_left _ (List.mem_map.2 ⟨n, by simp, rfl⟩)
    · exact List.mem_append_right _ rest

/-- How far the leftmost symbol is from emitting a terminal. -/
def distance (n : Nat) : DerivationState Char → Nat
  | .nonterminal (.int i) :: _ => i.toNat + 1
  | .nonterminal _ :: _ => n + 2
  | _ => 0

theorem Unfolds.distance_lt {a b : DerivationState Char}
    (unfolds : (doubling n).Unfolds a b) : distance n b < distance n a := by
  obtain ⟨name, rest, body, rule, rfl, rfl⟩ := unfolds_iff.1 unfolds
  obtain ⟨bodies, mem, inside⟩ := exists_rule_of_body rule
  rcases List.mem_append.1 mem with number | last
  · obtain ⟨i, -, same⟩ := List.mem_map.1 number
    cases same
    rw [List.mem_singleton.1 inside]
    cases i with
    | zero => exact Nat.zero_lt_succ _
    | succ i => simp [doubled, Body.symbols, distance]
  · cases List.mem_singleton.1 last
    rw [List.mem_singleton.1 inside]
    simp [Body.symbols, distance]

theorem not_leftRecursive_doubling (n : Nat) : ¬ (doubling n).LeftRecursive := by
  rintro ⟨name, rest, path⟩
  have falls {a b : DerivationState Char} (path : Relation.TransGen (doubling n).Unfolds a b) :
      distance n b < distance n a := by
    induction path with
    | single step => exact step.distance_lt
    | tail _ step ih => exact step.distance_lt.trans ih
  have less := falls path
  cases name <;> exact absurd less (lt_irrefl _)

/-- The words of a number are twice as long as those of the number before it. -/
theorem isShortest_doubling {i : Nat} (small : i ≤ n) :
    (doubling n).IsShortest [.nonterminal (.int i)] (some (2 ^ i)) := by
  induction i with
  | zero =>
    have only := bodies_doubling (n := n) (Nat.zero_le n)
    constructor
    · exact ⟨['t'], .unfold (by rw [only]; exact .head _) (.emit 't' .nil), rfl⟩
    · intro word derives
      cases derives with
      | unfold rule inner =>
        rw [only] at rule
        cases List.mem_singleton.1 rule
        cases inner with
        | emit _ tail => simp
  | succ i ih =>
    have only := bodies_doubling small
    obtain ⟨⟨half, derives, length⟩, least⟩ := ih (by omega)
    rw [Nat.pow_succ, Nat.mul_two]
    constructor
    · have rule : Body.concat (.int i) (.int i) ∈ (doubling n).bodies (.int (i + 1 : Nat)) := by
        rw [only]
        exact .head _
      exact ⟨half ++ half, .unfold rule (derives.append derives), by simp [length]⟩
    · intro word derives
      cases derives with
      | unfold rule inner =>
        rw [only] at rule
        cases List.mem_singleton.1 rule
        obtain ⟨u, v, rfl, left, right⟩ :=
          Derives.split (a := [.nonterminal (.int i)]) (b := [.nonterminal (.int i)]) inner
        rw [List.length_append]
        exact Nat.add_le_add (least u left) (least v right)

/-- What goes on with itself has no words. -/
theorem isShortest_doubling_none : (doubling n).IsShortest [.nonterminal (.text "none")] none := by
  have absent {state : DerivationState Char} {word : List Char}
      (derives : (doubling n).Derives state word) : .nonterminal (.text "none") ∉ state := by
    induction derives with
    | nil => simp
    | emit t _ ih => simpa using ih
    | unfold rule _ ih =>
      intro mem
      rcases List.mem_cons.1 mem with same | rest
      · cases same
        rw [bodies_doubling_none] at rule
        cases List.mem_singleton.1 rule
        exact ih (.tail _ (.head _))
      · exact ih (List.mem_append_right _ rest)
  intro word derives
  exact absent derives (.head _)

/-- If the words of the last number are too long, the sweeps fail. -/
theorem shortestLengths_doubling (large : overflowBound ≤ 2 ^ n) :
    (doubling n).shortestLengths = .error (.conversion .decimalTooLarge) := by
  have nodup := nodup_doubling n
  rcases shortestLengths_cases (wellFormed_doubling n) with ⟨table, -, approximates, stable⟩ | fails
  · have shortest := isShortest_stateYield approximates nodup stable
    have finite : table.of (.int n) = some (2 ^ n) := by
      rw [← stateYield_nonterminal (τ := Char)]
      exact (shortest _).unique (isShortest_doubling le_rfl)
    have infinite : table.of (.text "none") = none := by
      rw [← stateYield_nonterminal (τ := Char)]
      exact (shortest _).unique isShortest_doubling_none
    have rule : ⟨.text "none", .concat (.int n) (.text "none")⟩ ∈ (doubling n).allProductions := by
      rw [mem_allProductions nodup, bodies_doubling_none]
      exact .head _
    have unchanged := shorten_of_sweep stable _ rule
    rw [shorten, measure, Body.nonterminals, List.map_cons, List.map_singleton, finite, infinite,
      Length.total_pair, Length.plus_none_of_le large] at unchanged
    cases unchanged
  · exact fails.1

/-- The numbers up to `n`, where derivations begin with zero. Its only word is one letter. -/
def doublingFromZero (n : Nat) : Grammar Char :=
  { doubling n with start := some (.int 0) }

theorem wellFormed_doublingFromZero (n : Nat) : (doublingFromZero n).WellFormed :=
  ⟨(wellFormed_doubling n).nodup, (wellFormed_doubling n).known⟩

theorem not_leftRecursive_doublingFromZero (n : Nat) : ¬ (doublingFromZero n).LeftRecursive :=
  not_leftRecursive_doubling n

theorem shortestLengths_doublingFromZero :
    (doublingFromZero 1024).shortestLengths = .error (.conversion .decimalTooLarge) :=
  shortestLengths_doubling (Nat.sub_le _ _)

theorem derives_doublingFromZero {n : Nat} {word : List Char} :
    (doublingFromZero n).Derives [.nonterminal (.int 0)] word ↔ word = ['t'] := by
  have only : (doublingFromZero n).bodies (.int (0 : Nat)) = [doubled 0] :=
    bodies_doubling (Nat.zero_le n)
  constructor
  · intro derives
    cases derives with
    | unfold rule inner =>
      have rule := only ▸ rule
      cases List.mem_singleton.1 rule
      cases inner with
      | emit _ tail =>
        cases tail
        rfl
  · rintro rfl
    have rule : doubled 0 ∈ (doublingFromZero n).bodies (.int (0 : Nat)) := by
      rw [only]
      exact .head _
    exact .unfold rule (.emit 't' .nil)

theorem generates_doublingFromZero_iff {n : Nat} {word : List Char} :
    (doublingFromZero n).Generates word ↔ word = ['t'] := by
  rw [generates_iff (wellFormed_doublingFromZero n).nodup]
  constructor
  · rintro ⟨_, ⟨⟩, derives⟩
    exact derives_doublingFromZero.1 derives
  · intro same
    exact ⟨_, rfl, derives_doublingFromZero.2 same⟩

/-- With 1026 nonterminals the lengths can be out of range: none is answered, although a nonterminal
has a word of one letter. -/
theorem shortestLengths_thousand_doublings :
    (doubling 1024).nonterminals.length = 1026 ∧
      (doubling 1024).IsShortest [.nonterminal (.int 0)] (some 1) ∧
      (doubling 1024).shortestLengths = .error (.conversion .decimalTooLarge) := by
  refine ⟨by simp [nonterminals_doubling], isShortest_doubling (Nat.zero_le _), ?_⟩
  apply shortestLengths_doubling
  exact Nat.sub_le _ _

end ZeroRun.Grammar
