import ZeroRun.Linear.Separation
import ZeroRun.Proofs.Counters

/-! The functional that `separate` finds is negative on none of the columns, and unless the head
takes part in a combination that sums to zero, it is not negative on the head either. -/
namespace ZeroRun.Linear
open Counters (add scale zero dot)

private theorem foldl_gcd_dvd (v : List Int) (start : Nat) :
    v.foldl (fun g x => Nat.gcd g x.natAbs) start ∣ start ∧
      ∀ x ∈ v, (v.foldl (fun g x => Nat.gcd g x.natAbs) start : Nat) ∣ x.natAbs := by
  induction v generalizing start with
  | nil => simp
  | cons y v ih =>
    obtain ⟨before, after⟩ := ih (Nat.gcd start y.natAbs)
    refine ⟨Nat.dvd_trans before (Nat.gcd_dvd_left _ _), ?_⟩
    intro x mem
    rcases List.mem_cons.1 mem with rfl | mem
    · exact Nat.dvd_trans before (Nat.gcd_dvd_right _ _)
    · exact after x mem

theorem content_dvd {v : List Int} {x : Int} (mem : x ∈ v) : (content v : Int) ∣ x :=
  Int.ofNat_dvd_left.2 ((foldl_gcd_dvd v 0).2 x mem)

/-- A list is a positive multiple of its primitive part. -/
theorem exists_scale_primitive (v : List Int) : ∃ g : Int, 0 < g ∧ scale g (primitive v) = v := by
  by_cases small : content v ≤ 1
  · refine ⟨1, by omega, ?_⟩
    simp [primitive, small, scale]
  · refine ⟨content v, by omega, ?_⟩
    simp only [primitive, small, if_false, scale, List.map_map]
    refine (List.map_congr_left fun x mem => ?_).trans (List.map_id v)
    exact Int.mul_ediv_cancel' (content_dvd mem)

@[simp]
theorem length_primitive (v : List Int) : (primitive v).length = v.length := by
  unfold primitive
  split <;> simp

/-- Division by the greatest common divisor keeps the sign of a product. -/
theorem dot_primitive_nonneg {v a : List Int} (nonneg : 0 ≤ dot v a) :
    0 ≤ dot (primitive v) a := by
  obtain ⟨g, positive, same⟩ := exists_scale_primitive v
  rw [← same, Counters.scale_dot] at nonneg
  exact Int.nonneg_of_mul_nonneg_right nonneg positive

theorem dot_project {t f c a : Counters} (same : a.length = c.length) :
    dot t (project f c a) = -(dot f c) * dot t a + dot f a * dot t c := by
  rw [project, Counters.dot_add t (by simp [same]), Counters.dot_scale, Counters.dot_scale]

theorem length_project {f c a : Counters} (same : a.length = c.length) :
    (project f c a).length = c.length := by
  simp [project, same]

theorem length_leading (v : Counters) : (leading v).length = v.length := by
  induction v with
  | nil => rfl
  | cons x v ih =>
    simp only [leading]
    split <;> simp [ih]

theorem dot_leading_pos {v : Counters} (nonzero : ¬ v.isZero = true) : 0 < dot (leading v) v := by
  induction v with
  | nil => exact absurd rfl nonzero
  | cons x v ih =>
    unfold leading
    by_cases none : x = 0
    · have later : ¬ Counters.isZero v = true := by simpa [Counters.isZero, none] using nonzero
      simpa [none] using ih later
    · have others : dot (v.map fun _ => 0) v = 0 := by
        rw [List.map_const', Counters.dot_comm]
        exact Counters.dot_zero v v.length
      rw [if_neg none, Counters.dot_cons, others, Int.sign_mul_self]
      omega

/-- The lifted functional reads a column as the functional found among projections reads its
projection. -/
theorem dot_lifted {t f c a : Counters} (width : t.length = f.length)
    (same : a.length = c.length) :
    dot (add (scale (-(dot f c)) t) (scale (dot t c) f)) a = dot t (project f c a) := by
  rw [Counters.add_dot a (by simp [width]), Counters.scale_dot, Counters.scale_dot, dot_project same,
    Int.mul_comm (dot t c)]

/-- What is known of a functional: it has the length of the columns, is negative on none of them,
and on the head only if the head has a positive weight. -/
structure Separates (head : Counters) (columns : List Counters) (s : Separation) : Prop where
  width : s.functional.length = head.length
  columns_nonneg : ∀ c ∈ columns, 0 ≤ dot s.functional c
  head_nonneg : s.headWeight ≤ 0 → 0 ≤ dot s.functional head

/-- A positive weight stays positive when a combination is taken back from projections. -/
private theorem headWeight_lift {f c head : Counters} {rest : List Counters} {t : Separation}
    (negative : dot f c < 0) (none : (lift f c head rest t).headWeight ≤ 0) :
    t.headWeight ≤ 0 := by
  simp only [lift] at none
  generalize tail : (t.headWeight * dot f head + dot t.weights (rest.map (dot f))) ::
    t.weights.map (-(dot f c) * ·) = others at none
  obtain ⟨g, positive, same⟩ :=
    exists_scale_primitive (-(dot f c) * t.headWeight :: others)
  cases shape : primitive (-(dot f c) * t.headWeight :: others) with
  | nil =>
    rw [shape, Counters.scale_nil] at same
    cases same
  | cons w ws =>
    simp only [shape, Counters.scale_cons, List.cons.injEq] at same
    simp only [shape, List.headD_cons] at none
    have product : -(dot f c) * t.headWeight ≤ 0 := by
      rw [← same.1]
      exact Int.mul_nonpos_of_nonneg_of_nonpos (by omega) none
    have positive : 0 < -(dot f c) := by omega
    exact Int.nonpos_of_mul_nonpos_right product positive

theorem Separates.lift {head c : Counters} {rest : List Counters} {s t : Separation}
    (widths : ∀ a ∈ head :: rest, a.length = c.length) (width : s.functional.length = c.length)
    (negative : dot s.functional c < 0)
    (inner : Separates (project s.functional c head) (rest.map (project s.functional c)) t) :
    Separates head (c :: rest) (lift s.functional c head rest t) := by
  have headWidth := widths head (by simp)
  have tWidth : t.functional.length = s.functional.length := by
    rw [inner.width, length_project headWidth, width]
  refine ⟨?_, ?_, ?_⟩
  · simp [Linear.lift, tWidth, width, headWidth]
  · intro a mem
    apply dot_primitive_nonneg
    rcases List.mem_cons.1 mem with rfl | mem
    · rw [dot_lifted tWidth rfl, dot_project rfl, Int.neg_mul]
      omega
    · rw [dot_lifted tWidth (widths a (by simp [mem]))]
      exact inner.columns_nonneg _ (List.mem_map_of_mem mem)
  · intro none
    apply dot_primitive_nonneg
    rw [dot_lifted tWidth headWidth]
    exact inner.head_nonneg (headWeight_lift negative none)

/-- The functional found for a head and columns of one length separates them. -/
theorem separate_separates (head : Counters) (columns : List Counters)
    (widths : ∀ c ∈ columns, c.length = head.length) :
    Separates head columns (separate head columns) := by
  induction size : columns.length generalizing head columns with
  | zero =>
    have empty := List.eq_nil_of_length_eq_zero size
    subst empty
    rw [separate]
    split
    · exact ⟨rfl, by simp, by simp⟩
    · rename_i nonzero
      exact ⟨length_leading head, by simp, fun _ => Int.le_of_lt (dot_leading_pos nonzero)⟩
  | succ n ih =>
    cases columns with
    | nil => simp at size
    | cons c rest =>
      have restWidths : ∀ a ∈ rest, a.length = head.length := fun a mem => widths a (by simp [mem])
      have cWidth : c.length = head.length := widths c (by simp)
      have outer := ih head rest restWidths (by simpa using size)
      rw [separate]
      split
      · rename_i nonneg
        refine ⟨outer.width, ?_, outer.head_nonneg⟩
        intro a mem
        rcases List.mem_cons.1 mem with rfl | mem
        · exact nonneg
        · exact outer.columns_nonneg a mem
      · rename_i negative
        apply Separates.lift
        · intro a mem
          rcases List.mem_cons.1 mem with rfl | mem
          · exact cWidth.symm
          · rw [restWidths a mem, cWidth]
        · rw [outer.width, cWidth]
        · omega
        · apply ih
          · intro a mem
            obtain ⟨b, inside, rfl⟩ := List.mem_map.1 mem
            rw [length_project (by rw [restWidths b inside, cWidth]), length_project cWidth.symm]
          · simpa using size

end ZeroRun.Linear
