import Mathlib
import ZeroRun.Proofs.Linear.Natural

/-! The weights that `separate` finds are natural numbers that combine the head and the columns to
zero. Either the head takes part, or the functional is positive on it. -/
namespace ZeroRun.Linear
open Counters (add scale zero dot)

variable {head c : Counters} {rest : List Counters}

theorem dot_primitive_pos {v a : List Int} (positive : 0 < dot v a) : 0 < dot (primitive v) a := by
  obtain ⟨g, gcd_pos, same⟩ := exists_scale_primitive v
  rw [← same, Counters.scale_dot] at positive
  exact (mul_pos_iff_of_pos_left gcd_pos).1 positive

theorem dot_primitive_eq_zero {v a : List Int} (nothing : dot v a = 0) :
    dot (primitive v) a = 0 := by
  obtain ⟨g, gcd_pos, same⟩ := exists_scale_primitive v
  rw [← same, Counters.scale_dot] at nothing
  exact (mul_eq_zero.1 nothing).resolve_left gcd_pos.ne'

/-- What is known of the weights of a separation: they are natural numbers and combine the columns
to zero. If the head takes part, the functional sees nothing; otherwise it is positive on the
head. -/
structure Weighs (head : Counters) (columns : List Counters) (s : Separation) : Prop where
  length : s.weights.length = columns.length
  headWeight_nonneg : 0 ≤ s.headWeight
  weights_nonneg : ∀ w ∈ s.weights, 0 ≤ w
  sums : ∀ i, s.headWeight * head.getD i 0 + dot s.weights (columns.map (·.getD i 0)) = 0
  blind : 0 < s.headWeight → ∀ a, dot s.functional a = 0
  positive : s.headWeight = 0 → 0 < dot s.functional head

theorem getD_project {f a : Counters} (same : a.length = c.length) (i : Nat) :
    (project f c a).getD i 0 = -(dot f c) * a.getD i 0 + dot f a * c.getD i 0 := by
  rw [project, getD_add (by simp [same]), getD_scale, getD_scale]

theorem dot_map_linear (k m : Int) (p q : Counters → Int) (w : List Int) :
    dot w (rest.map fun a => k * p a + q a * m) =
      k * dot w (rest.map p) + dot w (rest.map q) * m := by
  induction rest generalizing w with
  | nil => simp
  | cons a rest ih =>
    cases w with
    | nil => simp
    | cons x w =>
      simp only [List.map_cons, Counters.dot_cons, ih]
      ring

/-- The lifted weights are, up to a common factor, those among projections and that of the column
that was projected away. -/
theorem exists_lift_weights (f c head : Counters) (rest : List Counters) (t : Separation) :
    ∃ g own ws, 0 < g ∧ (lift f c head rest t).weights = own :: ws ∧
      g * (lift f c head rest t).headWeight = -(dot f c) * t.headWeight ∧
      g * own = t.headWeight * dot f head + dot t.weights (rest.map (dot f)) ∧
      scale g ws = scale (-(dot f c)) t.weights := by
  obtain ⟨g, gcd_pos, same⟩ := exists_scale_primitive (-(dot f c) * t.headWeight ::
    (t.headWeight * dot f head + dot t.weights (rest.map (dot f))) ::
      t.weights.map (-(dot f c) * ·))
  unfold lift
  dsimp only
  generalize primitive _ = weights at same ⊢
  have length := congrArg List.length same
  rcases weights with _ | ⟨first, _ | ⟨own, ws⟩⟩
  · simp at length
  · simp at length
  · rw [Counters.scale_cons, Counters.scale_cons, List.cons.injEq, List.cons.injEq] at same
    exact ⟨g, own, ws, gcd_pos, rfl, same.1, same.2.1, same.2.2⟩

/-- The weight of the column that is projected away. -/
theorem Weighs.own_nonneg {s t : Separation} {projections : List Counters} {projected : Counters}
    (outer : Separates head rest s) (head_pos : 0 < dot s.functional head)
    (inner : Weighs projected projections t) :
    0 ≤ t.headWeight * dot s.functional head + dot t.weights (rest.map (dot s.functional)) := by
  have values : Counters.isNonneg (rest.map (dot s.functional)) = true := by
    refine Counters.isNonneg_iff.2 fun x mem => ?_
    obtain ⟨a, inside, rfl⟩ := List.mem_map.1 mem
    exact outer.columns_nonneg a inside
  exact add_nonneg (mul_nonneg inner.headWeight_nonneg head_pos.le)
    (Counters.dot_nonneg (Counters.isNonneg_iff.2 inner.weights_nonneg) values)

/-- A sum of projections that is zero, in terms of the columns that have been projected. -/
theorem Weighs.sums_unprojected {f : Counters} {t : Separation}
    (widths : ∀ a ∈ head :: rest, a.length = c.length)
    (inner : Weighs (project f c head) (rest.map (project f c)) t) (i : Nat) :
    -(dot f c) * t.headWeight * head.getD i 0 +
      ((t.headWeight * dot f head + dot t.weights (rest.map (dot f))) * c.getD i 0 +
        -(dot f c) * dot t.weights (rest.map (·.getD i 0))) = 0 := by
  have sum := inner.sums i
  have projected : (rest.map (project f c)).map (·.getD i 0) =
      rest.map fun a => -(dot f c) * a.getD i 0 + dot f a * c.getD i 0 := by
    rw [List.map_map]
    exact List.map_congr_left fun a mem => getD_project (widths a (List.mem_cons_of_mem _ mem)) i
  rw [getD_project (widths head List.mem_cons_self), projected, dot_map_linear] at sum
  linear_combination sum

/-- The weights among projections, taken back to the columns, still sum to zero. -/
theorem Weighs.lift {s t : Separation} (widths : ∀ a ∈ head :: rest, a.length = c.length)
    (outer : Separates head rest s) (head_pos : 0 < dot s.functional head)
    (negative : dot s.functional c < 0)
    (separates : Separates (project s.functional c head) (rest.map (project s.functional c)) t)
    (inner : Weighs (project s.functional c head) (rest.map (project s.functional c)) t) :
    Weighs head (c :: rest) (lift s.functional c head rest t) := by
  have headWidth := widths head List.mem_cons_self
  have width : t.functional.length = s.functional.length := by
    rw [separates.width, length_project headWidth, outer.width, headWidth]
  have slope : 0 < -(dot s.functional c) := by omega
  obtain ⟨g, own, ws, gcd_pos, shape, headWeight, ownWeight, others⟩ :=
    exists_lift_weights s.functional c head rest t
  have length : ws.length = t.weights.length := by simpa using congrArg List.length others
  refine ⟨?_, ?_, ?_, ?_, ?_, ?_⟩
  · rw [shape, List.length_cons, List.length_cons, length, inner.length, List.length_map]
  · refine (mul_nonneg_iff_of_pos_left gcd_pos).1 ?_
    rw [headWeight]
    exact mul_nonneg slope.le inner.headWeight_nonneg
  · rw [shape]
    refine List.forall_mem_cons.2 ⟨(mul_nonneg_iff_of_pos_left gcd_pos).1 ?_, fun w mem => ?_⟩
    · rw [ownWeight]
      exact inner.own_nonneg outer head_pos
    · refine (mul_nonneg_iff_of_pos_left gcd_pos).1 ?_
      have scaled : g * w ∈ scale (-(dot s.functional c)) t.weights :=
        others ▸ List.mem_map_of_mem mem
      obtain ⟨v, inside, same⟩ := List.mem_map.1 scaled
      rw [← same]
      exact mul_nonneg slope.le (inner.weights_nonneg v inside)
  · intro i
    have scaled : g * dot ws (rest.map (·.getD i 0)) =
        -(dot s.functional c) * dot t.weights (rest.map (·.getD i 0)) := by
      rw [← Counters.scale_dot, others, Counters.scale_dot]
    refine (mul_eq_zero.1 (?_ : g * _ = 0)).resolve_left gcd_pos.ne'
    rw [shape, List.map_cons, Counters.dot_cons, mul_add, mul_add, ← mul_assoc, ← mul_assoc,
      headWeight, ownWeight, scaled]
    exact inner.sums_unprojected widths i
  · intro weight_pos a
    have taken : 0 < t.headWeight := by
      have product := mul_pos gcd_pos weight_pos
      rw [headWeight] at product
      exact (mul_pos_iff_of_pos_left slope).1 product
    have unseen := inner.blind taken
    refine dot_primitive_eq_zero ?_
    rw [Counters.add_dot a (by simp [width]), Counters.scale_dot, Counters.scale_dot, unseen,
      unseen, mul_zero, zero_mul, Int.add_zero]
  · intro weightless
    have none : t.headWeight = 0 := by
      rw [weightless, mul_zero] at headWeight
      exact (mul_eq_zero.1 headWeight.symm).resolve_left slope.ne'
    refine dot_primitive_pos ?_
    rw [dot_lifted width headWidth]
    exact inner.positive none

/-- The weights found for a head and columns of one length sum to zero. -/
theorem separate_weighs (head : Counters) (columns : List Counters)
    (widths : ∀ c ∈ columns, c.length = head.length) :
    Weighs head columns (separate head columns) := by
  induction size : columns.length generalizing head columns with
  | zero =>
    obtain rfl := List.length_eq_zero_iff.1 size
    rw [separate]
    by_cases nothing : head.isZero = true
    · have isZero := Counters.isZero_iff.1 nothing
      rw [if_pos nothing]
      refine ⟨rfl, by simp, by simp, fun i => ?_, fun _ a => ?_, by simp⟩
      · rw [isZero, getD_zero, List.map_nil, Counters.dot_nil, mul_zero, Int.add_zero]
      · rw [isZero, Counters.dot_comm, Counters.dot_zero]
    · rw [if_neg nothing]
      exact ⟨rfl, le_rfl, by simp, by simp, by simp, fun _ => dot_leading_pos nothing⟩
  | succ n ih =>
    cases columns with
    | nil => cases size
    | cons c rest =>
      obtain ⟨cWidth, restWidths⟩ := List.forall_mem_cons.1 widths
      have outer := ih head rest restWidths (Nat.succ.inj size)
      have separates := separate_separates head rest restWidths
      rw [separate]
      by_cases nonneg : 0 ≤ dot (separate head rest).functional c
      · rw [if_pos nonneg]
        refine ⟨by simp [outer.length], outer.headWeight_nonneg,
          by simpa using outer.weights_nonneg, fun i => ?_, outer.blind, outer.positive⟩
        simpa using outer.sums i
      · rw [if_neg nonneg]
        have weightless : (separate head rest).headWeight = 0 := by
          by_contra weighty
          have weight_pos : 0 < (separate head rest).headWeight := by
            have := outer.headWeight_nonneg
            omega
          exact nonneg (outer.blind weight_pos c).ge
        have same : ∀ a ∈ head :: rest, a.length = c.length :=
          List.forall_mem_cons.2 ⟨cWidth.symm, fun a mem => (restWidths a mem).trans cWidth.symm⟩
        have projected : ∀ a ∈ rest.map (project (separate head rest).functional c),
            a.length = (project (separate head rest).functional c head).length := by
          intro a mem
          obtain ⟨b, inside, rfl⟩ := List.mem_map.1 mem
          rw [length_project (same b (List.mem_cons_of_mem _ inside)), length_project cWidth.symm]
        exact .lift same separates (outer.positive weightless) (not_le.1 nonneg)
          (separate_separates _ _ projected)
          (ih _ _ projected (by simpa using Nat.succ.inj size))

end ZeroRun.Linear
