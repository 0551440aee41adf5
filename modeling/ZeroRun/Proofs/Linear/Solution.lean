import Mathlib
import ZeroRun.Proofs.Linear.Combination
import ZeroRun.Proofs.Linear.Weights

/-! What the thorough search finds are solutions in natural numbers. If no functional bounds an
unknown, every column takes part in a combination that sums to zero. Adding all these combinations
often enough to whole-number coefficients makes them natural numbers. -/
namespace ZeroRun.Linear
open Counters (add scale zero dot)

variable {d k : Nat} {target : Counters} {columns : List Counters}

/-! ## Kernels -/

/-- Natural numbers that combine the columns to zero. -/
structure IsKernel (d : Nat) (columns : List Counters) (x : List Int) : Prop where
  length : x.length = columns.length
  nonneg : ∀ v ∈ x, 0 ≤ v
  sum : combine d columns x = zero d

theorem Weighs.isKernel {s : Separation} (widths : ∀ a ∈ columns, a.length = d)
    (inside : k < columns.length) (weighs : Weighs (columns.getD k []) (columns.eraseIdx k) s) :
    IsKernel d columns (s.weights.insertIdx k s.headWeight) := by
  have others : (columns.eraseIdx k).length + 1 = columns.length := by
    rw [List.length_eraseIdx_of_lt inside]
    omega
  have low : k ≤ s.weights.length := by
    rw [weighs.length]
    omega
  have length : (s.weights.insertIdx k s.headWeight).length = columns.length := by
    rw [List.length_insertIdx_of_le_length low, weighs.length, others]
  refine ⟨length, fun v mem => ?_, ?_⟩
  · rcases List.eq_or_mem_of_mem_insertIdx mem with rfl | mem
    · exact weighs.headWeight_nonneg
    · exact weighs.weights_nonneg v mem
  · have rest : ∀ a ∈ columns.eraseIdx k, a.length = d := fun a mem =>
      widths a (List.mem_of_mem_eraseIdx mem)
    have own : (s.weights.insertIdx k s.headWeight).getD k 0 = s.headWeight := by
      rw [List.getD_eq_getElem _ _ (length ▸ inside), List.getElem_insertIdx_self]
    have sameWidth : (scale s.headWeight (columns.getD k [])).length =
        (combine d (columns.eraseIdx k) s.weights).length := by
      rw [Counters.length_scale, widths _ (getD_mem [] inside), length_combine _ rest]
    rw [combine_eraseIdx widths length inside, own, List.eraseIdx_insertIdx_self]
    apply eq_of_getD
    · rw [Counters.length_add, sameWidth, length_combine _ rest, Nat.min_self, Counters.length_zero]
    intro i
    rw [getD_add sameWidth, getD_scale, getD_combine _ rest, getD_zero, Counters.dot_comm]
    exact weighs.sums i

theorem surveyOf_kernels (widths : ∀ a ∈ columns, a.length = d) :
    ∀ kernel ∈ (surveyOf columns).kernels, IsKernel d columns kernel := by
  refine surveyOf_invariant (motive := fun survey =>
    ∀ kernel ∈ survey.kernels, IsKernel d columns kernel) (by simp) ?_
  intro survey k inside known
  have weighs := separate_weighs (columns.getD k []) (columns.eraseIdx k) fun a mem => by
    rw [widths a (List.mem_of_mem_eraseIdx mem), widths _ (getD_mem [] inside)]
  unfold Survey.extend
  dsimp only
  split
  · exact List.forall_mem_cons.2 ⟨weighs.isKernel widths inside, known⟩
  · exact known

theorem Survey.covers_iff {survey : Survey} :
    survey.covers columns k = true ↔
      (∃ f ∈ survey.functionals, 0 < dot f (columns.getD k [])) ∨
        ∃ kernel ∈ survey.kernels, 0 < kernel.getD k 0 := by
  simp only [Survey.covers, Bool.or_eq_true, List.any_eq_true, decide_eq_true_eq]

theorem Survey.covers_extend {survey : Survey} (widths : ∀ a ∈ columns, a.length = d)
    (inside : k < columns.length) : (survey.extend columns k).covers columns k = true := by
  have weighs := separate_weighs (columns.getD k []) (columns.eraseIdx k) fun a mem => by
    rw [widths a (List.mem_of_mem_eraseIdx mem), widths _ (getD_mem [] inside)]
  have length := (weighs.isKernel widths inside).length
  rw [Survey.covers_iff]
  unfold Survey.extend
  dsimp only
  split
  · rename_i taken
    refine .inr ⟨_, List.mem_cons_self, ?_⟩
    rwa [List.getD_eq_getElem _ _ (length ▸ inside), List.getElem_insertIdx_self]
  · rename_i weightless
    have none : (separate (columns.getD k []) (columns.eraseIdx k)).headWeight = 0 :=
      le_antisymm (not_lt.1 weightless) weighs.headWeight_nonneg
    exact .inl ⟨_, List.mem_cons_self, weighs.positive none⟩

theorem Survey.covers_mono {survey : Survey} {j : Nat} (covered : survey.covers columns j = true)
    (k : Nat) : (survey.extend columns k).covers columns j = true := by
  rw [Survey.covers_iff] at covered ⊢
  unfold Survey.extend
  dsimp only
  split
  · exact covered.imp_right fun ⟨kernel, mem, positive⟩ =>
      ⟨kernel, List.mem_cons_of_mem _ mem, positive⟩
  · exact covered.imp_left fun ⟨f, mem, positive⟩ => ⟨f, List.mem_cons_of_mem _ mem, positive⟩

/-- A survey covers every column. -/
theorem covers_surveyOf (widths : ∀ a ∈ columns, a.length = d) (inside : k < columns.length) :
    (surveyOf columns).covers columns k = true := by
  -- Columns are covered when their turn comes, and stay so.
  have covered : ∀ (ks : List Nat) (survey : Survey), (∀ j ∈ ks, j < columns.length) →
      (survey.covers columns k = true ∨ k ∈ ks) →
      (ks.foldl (fun survey k =>
        if survey.covers columns k then survey else survey.extend columns k) survey).covers
          columns k = true := by
    intro ks
    induction ks with
    | nil => exact fun survey _ known => known.resolve_right List.not_mem_nil
    | cons j ks ih =>
      intro survey bounded known
      obtain ⟨here, later⟩ := List.forall_mem_cons.1 bounded
      refine ih _ later ?_
      dsimp only
      by_cases old : survey.covers columns j = true
      · rw [if_pos old]
        rcases known with known | mem
        · exact .inl known
        · rcases List.mem_cons.1 mem with rfl | mem
          · exact .inl old
          · exact .inr mem
      · rw [if_neg old]
        rcases known with known | mem
        · exact .inl (Survey.covers_mono known j)
        · rcases List.mem_cons.1 mem with rfl | mem
          · exact .inl (Survey.covers_extend widths here)
          · exact .inr mem
  exact covered _ {} (fun j mem => List.mem_range.1 mem) (.inr (List.mem_range.2 inside))

/-! ## Raising coefficients -/

theorem getD_nonneg {x : List Int} (nonneg : ∀ v ∈ x, 0 ≤ v) (i : Nat) : 0 ≤ x.getD i 0 := by
  by_cases inside : i < x.length
  · exact nonneg _ (getD_mem 0 inside)
  · rw [List.getD_eq_default _ _ (not_lt.1 inside)]

theorem IsKernel.add {x y : List Int} (widths : ∀ a ∈ columns, a.length = d)
    (left : IsKernel d columns x) (right : IsKernel d columns y) :
    IsKernel d columns (add x y) where
  length := by simp [left.length, right.length]
  nonneg v mem := by
    obtain ⟨i, inside, rfl⟩ := List.mem_iff_getElem.1 mem
    rw [← List.getD_eq_getElem _ 0 inside, getD_add (left.length.trans right.length.symm)]
    exact add_nonneg (getD_nonneg left.nonneg i) (getD_nonneg right.nonneg i)
  sum := by
    rw [combine_add widths (left.length.trans right.length.symm), left.sum, right.sum]
    exact Counters.zero_add (by simp)

/-- A sum of kernels is one, and at least each of them. -/
theorem IsKernel.foldl (widths : ∀ a ∈ columns, a.length = d) {kernels : List (List Int)}
    (known : ∀ kernel ∈ kernels, IsKernel d columns kernel) {start : List Int}
    (first : IsKernel d columns start) :
    IsKernel d columns (kernels.foldl Counters.add start) ∧
      ∀ kernel, kernel = start ∨ kernel ∈ kernels →
        ∀ i, kernel.getD i 0 ≤ (kernels.foldl Counters.add start).getD i 0 := by
  induction kernels generalizing start with
  | nil => exact ⟨first, by simp⟩
  | cons next kernels ih =>
    obtain ⟨here, later⟩ := List.forall_mem_cons.1 known
    have same : start.length = next.length := first.length.trans here.length.symm
    obtain ⟨isKernel, above⟩ := ih later (first.add widths here)
    refine ⟨isKernel, fun kernel mem i => ?_⟩
    have sum := above _ (.inl rfl) i
    rw [getD_add same] at sum
    have left := getD_nonneg first.nonneg i
    have right := getD_nonneg here.nonneg i
    rw [List.foldl_cons]
    rcases mem with rfl | mem
    · omega
    · rcases List.mem_cons.1 mem with rfl | mem
      · omega
      · exact above kernel (.inr mem) i

theorem isKernel_sumKernels (widths : ∀ a ∈ columns, a.length = d) {kernels : List (List Int)}
    (known : ∀ kernel ∈ kernels, IsKernel d columns kernel) :
    IsKernel d columns (sumKernels columns.length kernels) ∧
      ∀ kernel ∈ kernels, ∀ i, kernel.getD i 0 ≤ (sumKernels columns.length kernels).getD i 0 := by
  have start : IsKernel d columns (zero columns.length) :=
    ⟨by simp, fun v mem => (List.eq_of_mem_replicate mem).ge, combine_zero widths _⟩
  obtain ⟨isKernel, above⟩ := start.foldl widths known
  exact ⟨isKernel, fun kernel mem => above kernel (.inr mem)⟩

/-- Adding a positive list often enough leaves no negative entry. -/
theorem nonneg_of_liftCount_le {z ks : List Int} (length : z.length = ks.length)
    (positive : ∀ k ∈ ks, 0 < k) {m : Nat} (enough : liftCount z ks ≤ m) :
    ∀ v ∈ add z (scale m ks), 0 ≤ v := by
  induction z generalizing ks with
  | nil => simp
  | cons x z ih =>
    cases ks with
    | nil => cases length
    | cons k ks =>
      obtain ⟨here, later⟩ := List.forall_mem_cons.1 positive
      rw [liftCount, max_le_iff] at enough
      rw [Counters.scale_cons, Counters.add_cons]
      refine List.forall_mem_cons.2 ⟨?_, ih (Nat.succ.inj length) later enough.2⟩
      by_cases negative : x < 0
      · have count := enough.1
        rw [if_pos negative] at count
        have above : (-x + k - 1) / k ≤ m := by omega
        have reaches := Int.lt_ediv_add_one_mul_self (-x + k - 1) here
        nlinarith [mul_le_mul_of_nonneg_right above here.le]
      · have product : 0 ≤ (m : Int) * k := mul_nonneg (by positivity) here.le
        omega

/-! ## Solutions -/

theorem tightest_eq_none {bounds : List (Nat × Int)} (none : tightest bounds = none) :
    bounds = [] := by
  cases bounds with
  | nil => rfl
  | cons b bounds =>
    unfold tightest at none
    split at none
    · cases none
    · split at none <;> cases none

theorem exists_of_tryFrom {α : Type} {f : Nat → Option α} {count start : Nat} {a : α}
    (found : tryFrom f count start = some a) : ∃ v, f v = some a := by
  induction count generalizing start with
  | zero => cases found
  | succ count ih =>
    unfold tryFrom at found
    split at found
    · rename_i here
      exact ⟨start, here.trans found⟩
    · exact ih found

theorem length_remaining {column : Counters} (width : column.length = target.length) (v : Int) :
    (remaining target column v).length = target.length := by
  simp [remaining, width]

theorem add_remaining {column : Counters} (width : column.length = target.length) (v : Int) :
    add (scale v column) (remaining target column v) = target := by
  have length := length_remaining width v
  refine eq_of_getD (by simp [length, width]) fun i => ?_
  rw [getD_add (by simp [length, width]), remaining, getD_add (by simp [width]), getD_scale,
    getD_scale]
  ring

/-- A value for one unknown and a solution of the smaller system make a solution. -/
theorem Solves.insert {x : List Int} {v : Nat} (widths : ∀ a ∈ columns, a.length = target.length)
    (inside : k < columns.length)
    (solves : Solves (columns.eraseIdx k) (remaining target (columns.getD k []) v) x) :
    Solves columns target (x.insertIdx k (v : Int)) := by
  have columnWidth := widths _ (getD_mem [] inside)
  have rest : ∀ a ∈ columns.eraseIdx k, a.length = target.length := fun a mem =>
    widths a (List.mem_of_mem_eraseIdx mem)
  have others : x.length + 1 = columns.length := by
    rw [solves.width, List.length_eraseIdx_of_lt inside]
    omega
  have length : (x.insertIdx k (v : Int)).length = columns.length := by
    rw [List.length_insertIdx_of_le_length (by omega), others]
  have own : (x.insertIdx k (v : Int)).getD k 0 = v := by
    rw [List.getD_eq_getElem _ _ (length ▸ inside), List.getElem_insertIdx_self]
  refine ⟨length, Counters.isNonneg_iff.2 fun w mem => ?_, ?_⟩
  · rcases List.eq_or_mem_of_mem_insertIdx mem with rfl | mem
    · positivity
    · exact Counters.isNonneg_iff.1 solves.nonneg w mem
  · have sum := solves.sum
    rw [length_remaining columnWidth] at sum
    rw [combine_eraseIdx widths length inside, own, List.eraseIdx_insertIdx_self, sum,
      add_remaining columnWidth]

/-- If no functional of the survey bounds an unknown, the sum of the kernels is positive. -/
theorem sumKernels_pos (widths : ∀ a ∈ columns, a.length = target.length)
    (unbounded : (List.range columns.length).filterMap
      (boundOf? (surveyOf columns).functionals columns target) = []) :
    ∀ v ∈ sumKernels columns.length (surveyOf columns).kernels, 0 < v := by
  obtain ⟨isKernel, above⟩ := isKernel_sumKernels widths (surveyOf_kernels widths)
  intro v mem
  obtain ⟨k, small, rfl⟩ := List.mem_iff_getElem.1 mem
  have inside : k < columns.length := isKernel.length ▸ small
  rcases Survey.covers_iff.1 (covers_surveyOf widths inside) with bounded | ⟨kernel, known, pos⟩
  · obtain ⟨f, known, slope⟩ := bounded
    have none := List.filterMap_eq_nil_iff.1 unbounded k (List.mem_range.2 inside)
    rw [boundOf?, Option.map_eq_none_iff, List.min?_eq_none_iff] at none
    have unbounded := List.filterMap_eq_nil_iff.1 none f known
    rw [boundBy?, if_pos slope] at unbounded
    cases unbounded
  · have below := above kernel known k
    rw [List.getD_eq_getElem _ _ small] at below
    exact lt_of_lt_of_le pos below

/-- What the search finds is a solution. -/
theorem solves_of_solveWithin {n : Nat} {x : List Int} (size : columns.length = n)
    (widths : ∀ a ∈ columns, a.length = target.length)
    (found : solveWithin n columns target = some x) : Solves columns target x := by
  induction n generalizing columns target x with
  | zero =>
    obtain rfl := List.length_eq_zero_iff.1 size
    unfold solveWithin at found
    split at found
    · rename_i zero
      cases found
      exact ⟨rfl, rfl, (combine_nil _ _).trans (Counters.isZero_iff.1 zero).symm⟩
    · cases found
  | succ n ih =>
    simp only [solveWithin] at found
    split at found
    · cases found
    · rename_i z combined
      obtain ⟨length, sum⟩ := combine_of_combination? widths combined
      split at found
      · rename_i k bound tight
        obtain ⟨j, inRange, bounded⟩ := List.mem_filterMap.1 (mem_of_tightest tight)
        obtain ⟨value, -, same⟩ := Option.map_eq_some_iff.1 bounded
        obtain ⟨rfl, -⟩ := Prod.mk.inj same
        have inside := List.mem_range.1 inRange
        obtain ⟨v, tried⟩ := exists_of_tryFrom found
        obtain ⟨y, solved, rfl⟩ := Option.map_eq_some_iff.1 tried
        refine Solves.insert widths inside (ih ?_ (fun a mem => ?_) solved)
        · rw [List.length_eraseIdx_of_lt inside, size]
          rfl
        · rw [widths a (List.mem_of_mem_eraseIdx mem),
            length_remaining (widths _ (getD_mem [] inside))]
      · rename_i none
        cases found
        have positive := sumKernels_pos widths (tightest_eq_none none)
        obtain ⟨isKernel, -⟩ := isKernel_sumKernels widths (surveyOf_kernels widths)
        have same : z.length = (sumKernels columns.length (surveyOf columns).kernels).length :=
          length.trans isKernel.length.symm
        refine ⟨by simp [← same, length],
          Counters.isNonneg_iff.2 (nonneg_of_liftCount_le same positive le_rfl), ?_⟩
        have idle : ∀ m, scale m (zero target.length) = zero target.length := by
          simp [scale, zero]
        rw [combine_add widths (by simp [same]), combine_scale widths, sum, isKernel.sum, idle,
          Counters.add_zero rfl]

end ZeroRun.Linear
