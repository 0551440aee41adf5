import Mathlib
import ZeroRun.Proofs.Classification

/-! The factorizations of a walk. Between two places at which the walk is in the same state, it goes
round a cycle, and possibly further rounds follow. A factorization takes in as many of these as
there are. The place where the cycle begins and the place where its first round ends tell a
factorization from all others, so going through these pairs of places in order lists each
factorization once. -/
namespace ZeroRun

/-! ## Rounds at the beginning of a word -/

section Rounds
variable {cycle tail other word : Word} {pattern : LoopPattern} {i j : Nat}

/-- As many rounds are taken as there are. -/
theorem not_prefix_drop_roundsOf (ne : cycle ≠ []) {fuel : Nat} (enough : word.length ≤ fuel) :
    ¬ cycle <+: word.drop (roundsOf cycle fuel word * cycle.length) := by
  induction fuel generalizing word with
  | zero =>
    rw [List.length_eq_zero_iff.1 (Nat.le_zero.1 enough), List.drop_nil, List.prefix_nil]
    exact ne
  | succ fuel ih =>
    rw [roundsOf]
    split
    · rename_i begins
      obtain ⟨rest, rfl⟩ := List.isPrefixOf_iff_prefix.1 begins
      rw [List.drop_left, Nat.succ_mul, Nat.add_comm, ← List.drop_drop, List.drop_left]
      apply ih
      have longer := List.length_pos_of_ne_nil ne
      rw [List.length_append] at enough
      omega
    · rename_i differs
      rwa [Nat.zero_mul, List.drop_zero, ← List.isPrefixOf_iff_prefix]

/-- What comes after all rounds is determined. -/
theorem eq_of_rounds_append_eq {m n : Nat} (left : ¬ cycle <+: tail) (right : ¬ cycle <+: other)
    (same : (List.replicate m cycle).flatten ++ tail = (List.replicate n cycle).flatten ++ other) :
    tail = other := by
  have begins : ∀ k rest,
      cycle <+: (List.replicate (k + 1) cycle).flatten ++ rest := fun k rest =>
    ⟨(List.replicate k cycle).flatten ++ rest, by simp [List.replicate_succ]⟩
  induction m generalizing n with
  | zero =>
    cases n with
    | zero => exact same
    | succ n =>
      rw [List.replicate_zero, List.flatten_nil, List.nil_append] at same
      exact absurd (same ▸ begins n other) left
  | succ m ih =>
    cases n with
    | zero =>
      rw [List.replicate_zero, List.flatten_nil, List.nil_append] at same
      exact absurd (same ▸ begins m tail) right
    | succ n =>
      rw [List.replicate_succ, List.replicate_succ, List.flatten_cons, List.flatten_cons,
        List.append_assoc, List.append_assoc] at same
      exact ih (List.append_cancel_left same)

theorem afterRounds_rounds_append (ne : cycle ≠ []) (ends : ¬ cycle <+: tail) (n : Nat) :
    afterRounds cycle ((List.replicate n cycle).flatten ++ tail) = tail :=
  eq_of_rounds_append_eq (not_prefix_drop_roundsOf ne le_rfl) ends (rounds_append_drop _ _)

theorem LoopPattern.Circles.begins (circles : pattern.Circles word) :
    pattern.stem ++ pattern.cycle <+: word := by
  obtain ⟨k, positive, rfl⟩ := circles
  obtain ⟨k, rfl⟩ := Nat.exists_eq_add_of_le' positive
  exact ⟨pattern.rounds k ++ pattern.tail, by simp [LoopPattern.rounds, List.replicate_succ]⟩

/-- At two places of a word stands the factorization whose cycle begins at the first place and whose
first round ends at the second. -/
theorem factorAt?_eq_some_iff (order : i < j) (inside : j ≤ word.length) :
    factorAt? word i j = some pattern ↔
      (pattern.Circles word ∧ ¬ pattern.cycle <+: pattern.tail) ∧
        pattern.stem.length = i ∧ (pattern.stem ++ pattern.cycle).length = j := by
  constructor
  · intro factored
    obtain ⟨stem, cycle, tail⟩ := parts_of_factorAt? factored
    refine ⟨⟨(circles_of_factorAt? factored).1, ?_⟩, ?_, ?_⟩
    · rw [tail]
      exact not_prefix_drop_roundsOf pattern.cycle_ne_nil le_rfl
    · rw [stem, List.length_take]
      omega
    · rw [stem, cycle, List.length_append, List.length_drop, List.length_take, List.length_take]
      omega
  · rintro ⟨⟨⟨k, positive, spelled⟩, ends⟩, rfl, rfl⟩
    obtain ⟨k, rfl⟩ := Nat.exists_eq_add_of_le' positive
    obtain ⟨stem, cycle, tail, ne⟩ := pattern
    have spelled : word = stem ++ cycle ++ ((List.replicate k cycle).flatten ++ tail) := by
      rw [spelled, LoopPattern.rounds, List.replicate_succ, List.flatten_cons]
      simp only [List.append_assoc]
    subst spelled
    have front : (stem ++ cycle ++ ((List.replicate k cycle).flatten ++ tail)).take stem.length =
        stem := by
      rw [List.append_assoc, List.take_left]
    simp only [factorAt?, front, List.take_left, List.drop_left, ne, ne_eq, not_false_eq_true,
      dite_true, afterRounds_rounds_append ne ends]

end Rounds

namespace Walk
variable {sys : CounterSystem} (walk : Walk sys) {i j : Nat}

/-! ## Places at which the walk is in the same state -/

theorem mem_drop_zipIdx {states : List Ident} {state : Ident} {n : Nat} :
    (state, j) ∈ states.zipIdx.drop n ↔ n ≤ j ∧ states[j]? = some state := by
  simp only [List.mem_iff_getElem?, List.getElem?_drop, List.getElem?_zipIdx, Nat.zero_add,
    Option.map_eq_some_iff, Prod.mk.injEq]
  constructor
  · rintro ⟨k, other, present, rfl, rfl⟩
    exact ⟨Nat.le_add_right n k, present⟩
  · rintro ⟨le, present⟩
    refine ⟨j - n, state, ?_, rfl, ?_⟩
    · rwa [Nat.add_sub_cancel' le]
    · exact Nat.add_sub_cancel' le

theorem mem_repeats {states : List Ident} :
    (i, j) ∈ repeats states ↔
      i < j ∧ ∃ state, states[i]? = some state ∧ states[j]? = some state := by
  simp only [repeats, List.mem_flatMap, List.mem_filterMap, Prod.exists, mem_drop_zipIdx,
    List.mem_zipIdx_iff_getElem?, Option.ite_none_right_eq_some, Option.some.injEq, Prod.mk.injEq]
  constructor
  · rintro ⟨state, m, first, other, n, ⟨less, second⟩, rfl, rfl, rfl⟩
    exact ⟨less, state, first, second⟩
  · rintro ⟨less, state, first, second⟩
    exact ⟨state, i, first, state, j, ⟨less, second⟩, rfl, rfl, rfl⟩

/-- The pairs of places ascend by the first place, and then by the second. -/
theorem pairwise_repeats (states : List Ident) :
    (repeats states).Pairwise fun p q => p.1 < q.1 ∨ p.1 = q.1 ∧ p.2 < q.2 := by
  have ascending : states.zipIdx.Pairwise fun p q => p.2 < q.2 := by
    rw [← List.pairwise_map (f := Prod.snd), List.zipIdx_map_snd]
    exact List.pairwise_lt_range'
  rw [repeats, List.pairwise_flatMap]
  constructor
  · rintro ⟨state, i⟩ -
    rw [List.pairwise_filterMap]
    refine ascending.drop.imp fun less p first q second => ?_
    simp only [Option.ite_none_right_eq_some, Option.some.injEq] at first second
    obtain ⟨-, rfl⟩ := first
    obtain ⟨-, rfl⟩ := second
    exact .inr ⟨rfl, less⟩
  · refine ascending.imp fun less p first q second => ?_
    simp only [List.mem_filterMap, Option.ite_none_right_eq_some, Option.some.injEq] at first second
    obtain ⟨-, -, -, rfl⟩ := first
    obtain ⟨-, -, -, rfl⟩ := second
    exact .inl less

/-- The walk up to a place. -/
def upTo (i : Nat) : Walk sys :=
  ⟨walk.steps.take i, walk.valid.take i⟩

theorem word_upTo (i : Nat) : (walk.upTo i).word = walk.word.take i :=
  (walk.take_word i).symm

/-- There is one walk with a word that the walk begins with. -/
theorem eq_upTo {other : Walk sys} (begins : other.word <+: walk.word) :
    other = walk.upTo other.word.length := by
  apply eq_of_word_eq
  rw [word_upTo]
  exact List.prefix_iff_eq_take.1 begins

theorem length_word : walk.word.length = walk.length := by
  simp [word, length]

/-- The state at a place is the last one of the walk up to there. -/
theorem getElem?_states (inside : i ≤ walk.length) :
    walk.states[i]? = some (walk.upTo i).last := by
  cases i with
  | zero => rfl
  | succ i =>
    have step : (walk.steps.take (i + 1)).getLast? = walk.steps[i]? := by
      rw [List.take_succ_eq_append_getElem inside, List.getLast?_concat,
        List.getElem?_eq_getElem inside]
    rw [states, List.getElem?_cons_succ, List.getElem?_map, last, upTo, step,
      List.getElem?_eq_getElem inside]
    rfl

theorem mem_cycles :
    (i, j) ∈ walk.cycles ↔
      i < j ∧ j ≤ walk.length ∧ (walk.upTo i).last = (walk.upTo j).last := by
  rw [cycles, mem_repeats]
  refine and_congr_right fun less => ?_
  constructor
  · rintro ⟨state, first, second⟩
    have inside : j ≤ walk.length := by
      have bound := (List.getElem?_eq_some_iff.1 second).1
      simpa [states, length] using bound
    rw [getElem?_states walk (less.le.trans inside)] at first
    rw [getElem?_states walk inside] at second
    exact ⟨inside, Option.some.inj (first.trans second.symm)⟩
  · rintro ⟨inside, same⟩
    refine ⟨_, getElem?_states walk (less.le.trans inside), ?_⟩
    rw [getElem?_states walk inside, same]

/-! ## The list of factorizations -/

/-- A factorization stands at the place where its cycle begins and the place where the first round
ends. -/
theorem mem_factorizations_iff {pattern : LoopPattern} :
    pattern ∈ walk.factorizations ↔
      (pattern.Circles walk.word ∧ ¬ pattern.cycle <+: pattern.tail) ∧
        (walk.upTo pattern.stem.length).last =
          (walk.upTo (pattern.stem ++ pattern.cycle).length).last := by
  rw [factorizations, List.mem_filterMap]
  constructor
  · rintro ⟨⟨i, j⟩, circle, factored⟩
    obtain ⟨order, inside, same⟩ := walk.mem_cycles.1 circle
    rw [← length_word] at inside
    obtain ⟨fits, rfl, rfl⟩ := (factorAt?_eq_some_iff order inside).1 factored
    exact ⟨fits, same⟩
  · rintro ⟨fits, same⟩
    have order : pattern.stem.length < (pattern.stem ++ pattern.cycle).length := by
      have some := List.length_pos_of_ne_nil pattern.cycle_ne_nil
      rw [List.length_append]
      omega
    have inside : (pattern.stem ++ pattern.cycle).length ≤ walk.word.length :=
      fits.1.begins.length_le
    exact ⟨(pattern.stem.length, (pattern.stem ++ pattern.cycle).length),
      walk.mem_cycles.2 ⟨order, walk.length_word ▸ inside, same⟩,
      (factorAt?_eq_some_iff order inside).2 ⟨fits, rfl, rfl⟩⟩

/-- The factorizations ascend by the length of the stem, and then by that of the cycle. -/
theorem pairwise_factorizations :
    walk.factorizations.Pairwise fun p q => p.stem.length < q.stem.length ∨
      p.stem.length = q.stem.length ∧ p.cycle.length < q.cycle.length := by
  rw [factorizations, List.pairwise_filterMap]
  refine (pairwise_repeats walk.states).imp_of_mem fun first second less p left q right => ?_
  obtain ⟨order, inside, -⟩ := walk.mem_cycles.1 first
  obtain ⟨order', inside', -⟩ := walk.mem_cycles.1 second
  rw [← length_word] at inside inside'
  obtain ⟨-, stem, round⟩ := (factorAt?_eq_some_iff order inside).1 left
  obtain ⟨-, stem', round'⟩ := (factorAt?_eq_some_iff order' inside').1 right
  rw [List.length_append] at round round'
  omega

/-- The factorizations of a walk are the patterns with at least one round of the cycle in the walk,
the same state before and after this round, and a tail that does not begin with a further round.
Each is listed once, by the length of the stem and then by that of the cycle, and recognises the
walk. -/
theorem factorizations_exact (walk : Walk sys) :
    (∀ pattern, pattern ∈ walk.factorizations ↔
        (∃ k, 1 ≤ k ∧ walk.word = pattern.stem ++ pattern.rounds k ++ pattern.tail) ∧
          (∃ before after : Walk sys, before.word = pattern.stem ∧
            after.word = pattern.stem ++ pattern.cycle ∧ before.last = after.last) ∧
          ¬ pattern.cycle <+: pattern.tail) ∧
      walk.factorizations.Nodup ∧
      walk.factorizations.Pairwise (fun p q => p.stem.length < q.stem.length ∨
        p.stem.length = q.stem.length ∧ p.cycle.length < q.cycle.length) ∧
      ∀ pattern ∈ walk.factorizations, pattern.isMember walk.word = true := by
  refine ⟨fun pattern => ?_, ?_, walk.pairwise_factorizations, fun pattern mem => ?_⟩
  · rw [mem_factorizations_iff]
    constructor
    · rintro ⟨⟨circles, ends⟩, same⟩
      have begins := circles.begins
      have front : pattern.stem <+: walk.word := (List.prefix_append _ _).trans begins
      refine ⟨circles, ⟨_, _, ?_, ?_, same⟩, ends⟩
      · rw [word_upTo, ← List.prefix_iff_eq_take.1 front]
      · rw [word_upTo, ← List.prefix_iff_eq_take.1 begins]
    · rintro ⟨circles, ⟨before, after, stem, round, same⟩, ends⟩
      have begins : after.word <+: walk.word := round ▸ LoopPattern.Circles.begins circles
      have front : before.word <+: walk.word :=
        stem ▸ (List.prefix_append _ _).trans (LoopPattern.Circles.begins circles)
      rw [walk.eq_upTo begins, walk.eq_upTo front, stem, round] at same
      exact ⟨⟨circles, ends⟩, same⟩
  · apply walk.pairwise_factorizations.imp
    rintro p _ less rfl
    omega
  · have circles := (walk.mem_factorizations_iff.1 mem).1.1
    exact LoopPattern.isMember_iff.2 circles.holds

end Walk
end ZeroRun
