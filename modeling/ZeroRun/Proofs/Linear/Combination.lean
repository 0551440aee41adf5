import Mathlib
import ZeroRun.Proofs.Linear.Natural

/-! The coefficients that are found combine the columns to the target. Each column carries a record
of how it was combined, and Euclid's steps keep the records true. So does taking multiples of
columns away from the target, until nothing but its record is left. -/
namespace ZeroRun.Linear
open Counters (add scale zero dot)

variable {d : Nat} {columns : List Counters} {target : Counters}

/-! ## Combinations are linear -/

theorem eq_of_getD {a b : Counters} (length : a.length = b.length)
    (entries : ∀ i, a.getD i 0 = b.getD i 0) : a = b := by
  refine List.ext_getElem length fun i left right => ?_
  have entry := entries i
  rwa [List.getD_eq_getElem _ _ left, List.getD_eq_getElem _ _ right] at entry

theorem combine_scale (widths : ∀ c ∈ columns, c.length = d) (k : Int) (x : List Int) :
    combine d columns (scale k x) = scale k (combine d columns x) := by
  apply eq_of_getD
  · simp [length_combine _ widths]
  · intro i
    rw [getD_combine _ widths, getD_scale, getD_combine _ widths, Counters.dot_scale]

theorem combine_add (widths : ∀ c ∈ columns, c.length = d) {x y : List Int}
    (same : x.length = y.length) :
    combine d columns (add x y) = add (combine d columns x) (combine d columns y) := by
  apply eq_of_getD
  · simp [length_combine _ widths]
  · intro i
    have lengths : (combine d columns x).length = (combine d columns y).length := by
      simp [length_combine _ widths]
    rw [getD_combine _ widths, getD_add lengths, getD_combine _ widths, getD_combine _ widths,
      Counters.dot_add _ same]

theorem unitVector_zero (n : Nat) : unitVector (n + 1) 0 = 1 :: zero n := by
  rw [unitVector, List.range_succ_eq_map, List.map_cons, List.map_map]
  simp [zero, Function.comp_def, List.map_const']

theorem unitVector_succ (n k : Nat) : unitVector (n + 1) (k + 1) = 0 :: unitVector n k := by
  rw [unitVector, List.range_succ_eq_map, List.map_cons, List.map_map]
  simp [unitVector, Function.comp_def]

theorem combine_zero (widths : ∀ c ∈ columns, c.length = d) (n : Nat) :
    combine d columns (zero n) = zero d := by
  apply eq_of_getD
  · simp [length_combine _ widths]
  · intro i
    rw [getD_combine _ widths, Counters.dot_zero, getD_zero]

/-- The combination with one coefficient is a column. -/
theorem combine_unitVector (widths : ∀ c ∈ columns, c.length = d) {k : Nat} {column : Counters}
    (here : columns[k]? = some column) :
    combine d columns (unitVector columns.length k) = column := by
  induction columns generalizing k with
  | nil => cases here
  | cons c columns ih =>
    obtain ⟨first, rest⟩ := List.forall_mem_cons.1 widths
    cases k with
    | zero =>
      cases here
      rw [List.length_cons, unitVector_zero, combine_cons, combine_zero rest, ← first]
      rw [Counters.add_zero (by simp)]
      simp [scale]
    | succ k =>
      have later := ih rest here
      rw [List.length_cons, unitVector_succ, combine_cons, later, scale_zero_left, first]
      exact Counters.zero_add (rest column (List.mem_of_getElem? here))

/-! ## Euclid's steps keep what multiples keep -/

/-- A property of vectors that is kept when a multiple of one vector is added to another. -/
def Shears (P Q : Counters → Prop) : Prop :=
  ∀ k u v, Q u → P v → Q (add u (scale k v))

/-- The property is kept for what is left of vectors that begin with zero. -/
theorem Shears.tail {P Q : Counters → Prop} (shears : Shears P Q) :
    Shears (fun v => P (0 :: v)) fun v => Q (0 :: v) := by
  intro k u v left right
  have sum := shears k _ _ left right
  rwa [Counters.scale_cons, Counters.add_cons, Int.mul_zero, Int.add_zero] at sum

section Keeps
variable {P Q : Counters → Prop}

theorem euclid_keeps (shears : Shears P P) (a b : Split) (left : P (a.1 :: a.2))
    (right : P (b.1 :: b.2)) :
    P ((euclid a b).1.1 :: (euclid a b).1.2) ∧ P (0 :: (euclid a b).2) := by
  fun_induction euclid a b with
  | case1 a b none => exact ⟨left, none ▸ right⟩
  | case2 a b some ih =>
    refine ih right ?_
    have reduced := shears (-(a.1 / b.1)) _ _ left right
    rw [Counters.scale_cons, Counters.add_cons] at reduced
    have entry : a.1 + -(a.1 / b.1) * b.1 = a.1 % b.1 := by
      rw [Int.emod_def]
      ring
    rwa [entry] at reduced

theorem gather_keeps (shears : Shears P P) (filled : ∀ v, P v → v ≠ [])
    (known : ∀ c ∈ columns, P c) :
    (∀ q, (gather columns).1 = some q → P (q.1 :: q.2)) ∧
      ∀ c ∈ (gather columns).2, P (0 :: c) := by
  induction columns with
  | nil => exact ⟨nofun, nofun⟩
  | cons column columns ih =>
    obtain ⟨first, rest⟩ := List.forall_mem_cons.1 known
    obtain ⟨pivot, others⟩ := ih rest
    cases column with
    | nil => exact absurd rfl (filled _ first)
    | cons x tail =>
      simp only [gather]
      by_cases nothing : x = 0
      · rw [if_pos nothing]
        exact ⟨pivot, List.forall_mem_cons.2 ⟨nothing ▸ first, others⟩⟩
      · rw [if_neg nothing]
        cases found : (gather columns).1 with
        | none =>
          refine ⟨fun q same => ?_, others⟩
          obtain rfl := Option.some.inj same
          exact first
        | some p =>
          obtain ⟨gathered, freed⟩ := euclid_keeps shears p (x, tail) (pivot p found) first
          refine ⟨fun q same => ?_, List.forall_mem_cons.2 ⟨freed, others⟩⟩
          obtain rfl := Option.some.inj same
          exact gathered

/-- What remains of a target has the property of the target, behind zeros. -/
theorem reduceRows_keeps {rows : Nat} {rest : List Int} (within : Shears P P)
    (across : Shears P Q) (filled : ∀ v, P v → rows ≤ v.length)
    (long : ∀ v, Q v → rows ≤ v.length) (known : ∀ c ∈ columns, P c) (start : Q target)
    (reduced : reduceRows rows columns target = some rest) : Q (zero rows ++ rest) := by
  induction rows generalizing columns target P Q with
  | zero =>
    cases reduced
    exact start
  | succ rows ih =>
    have nonempty : ∀ v, P v → v ≠ [] := fun v holds =>
      List.ne_nil_of_length_pos (Nat.lt_of_lt_of_le (Nat.succ_pos rows) (filled v holds))
    have shorter : ∀ v, P (0 :: v) → rows ≤ v.length := fun v holds =>
      Nat.le_of_succ_le_succ (filled _ holds)
    have shorter' : ∀ v, Q (0 :: v) → rows ≤ v.length := fun v holds =>
      Nat.le_of_succ_le_succ (long _ holds)
    obtain ⟨pivot, others⟩ := gather_keeps within nonempty known
    cases target with
    | nil => exact absurd (long [] start) (by simp)
    | cons y target =>
      simp only [reduceRows] at reduced
      split at reduced
      · rename_i left gathered
        rw [gathered] at others
        split at reduced
        · rename_i zero
          exact ih within.tail across.tail shorter shorter' others (zero ▸ start) reduced
        · cases reduced
      · rename_i h tail left gathered
        rw [gathered] at pivot others
        split at reduced
        · rename_i multiple
          have moved := across (-(y / h)) _ _ start (pivot (h, tail) rfl)
          rw [Counters.scale_cons, Counters.add_cons] at moved
          have entry : y + -(y / h) * h = 0 := by
            have := Int.ediv_mul_cancel (Int.dvd_of_emod_eq_zero multiple)
            linarith
          rw [entry] at moved
          exact ih within.tail across.tail shorter shorter' others moved reduced
        · cases reduced

end Keeps

/-! ## Records -/

/-- A vector with the record of which combination of the columns has been added to the start. -/
def Recorded (columns : List Counters) (start : Counters) (v : Counters) : Prop :=
  ∃ z, z.length = columns.length ∧ v = add start (combine start.length columns z) ++ z

theorem recorded_shears (widths : ∀ c ∈ columns, c.length = target.length) :
    Shears (Recorded columns (zero target.length)) (Recorded columns target) := by
  rintro k u v ⟨x, left, rfl⟩ ⟨y, right, rfl⟩
  have width : ∀ z, (combine target.length columns z).length = target.length := fun z =>
    length_combine z widths
  refine ⟨add x (scale k y), by simp [left, right], ?_⟩
  rw [Counters.length_zero, Counters.zero_add (width y), combine_add widths (by simp [left, right]),
    combine_scale widths, ← Counters.add_assoc]
  simp only [add, scale, List.map_append]
  refine List.zipWith_append ?_
  simp [width]

theorem Recorded.length_le {v : Counters} (recorded : Recorded columns target v)
    (widths : ∀ c ∈ columns, c.length = target.length) : target.length ≤ v.length := by
  obtain ⟨z, -, rfl⟩ := recorded
  simp [length_combine z widths]

/-- The coefficients that are found combine the columns to the target. -/
theorem combine_of_combination? {x : List Int} (widths : ∀ c ∈ columns, c.length = target.length)
    (found : combination? columns target = some x) :
    x.length = columns.length ∧ combine target.length columns x = target := by
  have widths' : ∀ c ∈ columns, c.length = (zero target.length).length := by simpa using widths
  simp only [combination?, Option.map_eq_some_iff] at found
  obtain ⟨rest, reduced, rfl⟩ := found
  have within : Shears (Recorded columns (zero target.length))
      (Recorded columns (zero target.length)) := by
    simpa using recorded_shears widths'
  have traced : ∀ c ∈ columns.zipIdx.map fun p => p.1 ++ unitVector columns.length p.2,
      Recorded columns (zero target.length) c := by
    intro c mem
    obtain ⟨⟨column, k⟩, inside, rfl⟩ := List.mem_map.1 mem
    refine ⟨unitVector columns.length k, by simp [unitVector], ?_⟩
    rw [Counters.length_zero, combine_unitVector widths (List.mk_mem_zipIdx_iff_getElem?.1 inside),
      Counters.zero_add (widths column (List.fst_mem_of_mem_zipIdx inside))]
  have start : Recorded columns target (target ++ zero columns.length) := by
    refine ⟨zero columns.length, by simp, ?_⟩
    rw [combine_zero widths, Counters.add_zero rfl]
  obtain ⟨z, length, same⟩ := reduceRows_keeps within (recorded_shears widths)
    (fun v recorded => by simpa using recorded.length_le widths')
    (fun v recorded => recorded.length_le widths) traced start reduced
  obtain ⟨sum, rfl⟩ := List.append_inj same (by simp [length_combine z widths])
  refine ⟨by simp [length], ?_⟩
  rw [combine_scale widths]
  refine eq_of_getD (by simp [length_combine rest widths]) fun i => ?_
  have entry := congrArg (fun v => v.getD i 0) sum
  simp only [getD_zero, getD_add (length_combine rest widths).symm] at entry
  rw [getD_scale]
  omega

end ZeroRun.Linear
