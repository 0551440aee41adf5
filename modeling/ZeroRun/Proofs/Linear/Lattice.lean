import ZeroRun.Linear.Lattice
import ZeroRun.Proofs.Counters

/-! Whole-number combinations of columns. Gathering the entries of a row into one column loses no
combination, so a target that cannot be reduced to zero is no combination of the columns. -/
namespace ZeroRun.Linear
open Counters (add scale zero dot)

/-- The sum of the columns with the given coefficients, in `d` rows. -/
def combine (d : Nat) : List Counters → List Int → Counters
  | c :: cs, x :: xs => add (scale x c) (combine d cs xs)
  | _, _ => zero d

@[simp]
theorem combine_nil (d : Nat) (xs : List Int) : combine d [] xs = zero d := by
  simp [combine]

@[simp]
theorem combine_cons (d : Nat) (c : Counters) (cs : List Counters) (x : Int) (xs : List Int) :
    combine d (c :: cs) (x :: xs) = add (scale x c) (combine d cs xs) := rfl

theorem length_combine {d : Nat} {columns : List Counters} (coefficients : List Int)
    (widths : ∀ c ∈ columns, c.length = d) : (combine d columns coefficients).length = d := by
  induction columns generalizing coefficients with
  | nil => simp
  | cons c columns ih =>
    cases coefficients with
    | nil => simp [combine]
    | cons x xs => simp [ih xs fun a mem => widths a (by simp [mem]), widths c (by simp)]

theorem take_add (r : Nat) (a b : Counters) :
    (add a b).take r = add (a.take r) (b.take r) := by
  simp [add, List.take_zipWith]

theorem take_scale (r : Nat) (k : Int) (a : Counters) : (scale k a).take r = scale k (a.take r) := by
  simp [scale]

theorem take_zero {r n : Nat} (le : r ≤ n) : (zero n).take r = zero r := by
  simp [zero, Nat.min_eq_left le]

/-- The first rows of a combination are the combination of the first rows. -/
theorem take_combine {r d : Nat} (le : r ≤ d) (columns : List Counters) (coefficients : List Int) :
    (combine d columns coefficients).take r =
      combine r (columns.map (·.take r)) coefficients := by
  induction columns generalizing coefficients with
  | nil => simp [take_zero le]
  | cons c columns ih =>
    cases coefficients with
    | nil => simp [combine, take_zero le]
    | cons x xs => simp [take_add, take_scale, ih]

/-- A multiple that has been added can be taken away again. -/
theorem eq_sub_of_add_eq {a b c : Counters} {p : Int} (same : b.length = a.length)
    (sum : add (scale p a) b = c) : b = add c (scale (-p) a) := by
  subst sum
  induction a generalizing b with
  | nil => simp [List.eq_nil_of_length_eq_zero same]
  | cons x a ih =>
    cases b with
    | nil => simp at same
    | cons y b =>
      simp only [Counters.scale_cons, Counters.add_cons, List.cons.injEq]
      refine ⟨?_, ih (by simpa using same)⟩
      rw [Int.neg_mul]
      omega

/-- Taking `k` times `b` away from `a` and giving it to the multiple of `b` changes nothing. -/
private theorem shift_multiple {a b : Counters} (α β k : Int) (same : a.length = b.length) :
    add (scale (α * k + β) b) (scale α (add a (scale (-k) b))) =
      add (scale α a) (scale β b) := by
  induction a generalizing b with
  | nil => simp [List.eq_nil_of_length_eq_zero same.symm]
  | cons x a ih =>
    cases b with
    | nil => simp at same
    | cons y b =>
      simp only [Counters.scale_cons, Counters.add_cons, List.cons.injEq]
      refine ⟨?_, ih (by simpa using same)⟩
      grind

/-- What Euclid's steps leave of two columns: a common column with an entry, and a freed column
without one, of which every combination of the two is a combination. -/
structure Gathered (m : Nat) (a b q : Split) (freed : List Int) : Prop where
  pivot_width : q.2.length = m
  freed_width : freed.length = m
  keeps : ∀ α β : Int, ∃ p z : Int, α * a.1 + β * b.1 = p * q.1 ∧
    add (scale α a.2) (scale β b.2) = add (scale p q.2) (scale z freed)

theorem euclid_gathers {m : Nat} (a b : Split) (left : a.2.length = m) (right : b.2.length = m) :
    Gathered m a b (euclid a b).1 (euclid a b).2 := by
  fun_induction euclid a b with
  | case1 a b none => exact ⟨left, right, fun α β => ⟨α, β, by simp [none], rfl⟩⟩
  | case2 a b some ih =>
    obtain ⟨pivotWidth, freedWidth, keeps⟩ := ih right (by simp [left, right])
    refine ⟨pivotWidth, freedWidth, fun α β => ?_⟩
    obtain ⟨p, z, entry, tail⟩ := keeps (α * (a.1 / b.1) + β) α
    refine ⟨p, z, ?_, ?_⟩
    · rw [← entry]
      have division := Int.emod_add_mul_ediv a.1 b.1
      grind
    · rw [← tail, shift_multiple α β (a.1 / b.1) (by rw [left, right])]

theorem euclid_ne_zero (a b : Split) (some : a.1 ≠ 0 ∨ b.1 ≠ 0) : (euclid a b).1.1 ≠ 0 := by
  fun_induction euclid a b with
  | case1 a b none => simpa [none] using some
  | case2 a b nonzero ih => exact ih (.inl nonzero)

/-- The gathered column as a whole; without one, nothing. -/
def pivotColumn (m : Nat) : Option Split → Counters
  | none => zero (m + 1)
  | some (h, tail) => h :: tail

/-- What gathering a row leaves of the columns: a pivot with an entry in this row, and columns
without the row, of which every combination of the columns is a combination. -/
structure RowGathered (m : Nat) (columns : List Counters) (pivot : Option Split)
    (others : List Counters) : Prop where
  pivot_width : ∀ q, pivot = some q → q.2.length = m
  pivot_ne_zero : ∀ q, pivot = some q → q.1 ≠ 0
  others_width : ∀ c ∈ others, c.length = m
  keeps : ∀ y, ∃ p z,
    combine (m + 1) columns y = add (scale p (pivotColumn m pivot)) (0 :: combine m others z)

theorem length_pivotColumn {m : Nat} {pivot : Option Split}
    (width : ∀ q, pivot = some q → q.2.length = m) : (pivotColumn m pivot).length = m + 1 := by
  cases pivot with
  | none => simp [pivotColumn]
  | some q => simpa [pivotColumn] using width q rfl

theorem scale_zero_left (a : Counters) : scale 0 a = zero a.length := by
  simp [scale, zero, List.map_const']

private theorem RowGathered.keeps_none {m : Nat} {pivot : Option Split} (others : List Counters)
    (width : ∀ q, pivot = some q → q.2.length = m) :
    ∃ p z, zero (m + 1) = add (scale p (pivotColumn m pivot)) (0 :: combine m others z) := by
  refine ⟨0, [], ?_⟩
  rw [scale_zero_left, length_pivotColumn width]
  cases others <;> simp [combine, Counters.zero_add]

/-- A column without an entry in the row joins the others. -/
private theorem RowGathered.skip {m : Nat} {columns others : List Counters} {pivot : Option Split}
    {tail : List Int} (inner : RowGathered m columns pivot others) (width : tail.length = m) :
    RowGathered m ((0 :: tail) :: columns) pivot (tail :: others) := by
  refine ⟨inner.pivot_width, inner.pivot_ne_zero, ?_, ?_⟩
  · simpa [width] using inner.others_width
  · intro y
    cases y with
    | nil => exact keeps_none _ inner.pivot_width
    | cons v vs =>
      obtain ⟨p, z, sum⟩ := inner.keeps vs
      refine ⟨p, v :: z, ?_⟩
      rw [combine_cons, sum, ← Counters.add_assoc, Counters.add_comm (scale v (0 :: tail)), Counters.add_assoc]
      simp

/-- The first column with an entry becomes the pivot. -/
private theorem RowGathered.first {m : Nat} {columns others : List Counters} {x : Int}
    {tail : List Int} (inner : RowGathered m columns none others) (width : tail.length = m)
    (entry : x ≠ 0) : RowGathered m ((x :: tail) :: columns) (some (x, tail)) others := by
  refine ⟨by simp [width], by simp [entry], inner.others_width, ?_⟩
  intro y
  cases y with
  | nil => exact keeps_none _ (by simp [width])
  | cons v vs =>
    obtain ⟨p, z, sum⟩ := inner.keeps vs
    refine ⟨v, z, ?_⟩
    have nothing : scale p (pivotColumn m none) = zero (m + 1) := by
      simp [pivotColumn, scale, zero]
    rw [combine_cons, sum, nothing, Counters.zero_add]
    · rfl
    · simp [length_combine z inner.others_width]

/-- A further column with an entry is gathered into the pivot by Euclid's steps. -/
private theorem RowGathered.merge {m : Nat} {columns others : List Counters} {x : Int}
    {tail freed : List Int} {old new : Split} (inner : RowGathered m columns (some old) others)
    (gathered : Gathered m old (x, tail) new freed)
    (entry : new.1 ≠ 0) :
    RowGathered m ((x :: tail) :: columns) (some new) (freed :: others) := by
  refine ⟨?_, ?_, ?_, ?_⟩
  · rintro q ⟨⟩
    exact gathered.pivot_width
  · rintro q ⟨⟩
    exact entry
  · simpa [gathered.freed_width] using inner.others_width
  · intro y
    cases y with
    | nil =>
      refine keeps_none _ ?_
      rintro q ⟨⟩
      exact gathered.pivot_width
    | cons v vs =>
      obtain ⟨p, z, sum⟩ := inner.keeps vs
      obtain ⟨p', z', head, rest⟩ := gathered.keeps p v
      refine ⟨p', z' :: z, ?_⟩
      rw [combine_cons, sum, ← Counters.add_assoc, Counters.add_comm (scale v (x :: tail))]
      simp only [pivotColumn, Counters.scale_cons, Counters.add_cons, combine_cons, Int.add_zero, head, rest,
        Counters.add_assoc]

theorem gather_gathers {m : Nat} (columns : List Counters)
    (widths : ∀ c ∈ columns, c.length = m + 1) :
    RowGathered m columns (gather columns).1 (gather columns).2 := by
  induction columns with
  | nil =>
    refine ⟨by simp [gather], by simp [gather], by simp [gather], fun y => ?_⟩
    rw [combine_nil]
    exact RowGathered.keeps_none _ (by simp [gather])
  | cons column columns ih =>
    have inner := ih fun c mem => widths c (by simp [mem])
    cases column with
    | nil => simpa using widths [] (by simp)
    | cons x tail =>
      have width : tail.length = m := by simpa using widths (x :: tail) (by simp)
      simp only [gather]
      split
      · rename_i zero
        subst zero
        exact inner.skip width
      · rename_i entry
        generalize (gather columns).1 = pivot at inner ⊢
        cases pivot with
        | none => exact inner.first width entry
        | some old =>
          exact inner.merge (euclid_gathers old (x, tail) (inner.pivot_width old rfl) width)
            (euclid_ne_zero old (x, tail) (.inr entry))

/-- A target that cannot be reduced to zero in some rows is there no combination of the
columns. -/
theorem combine_ne_of_reduceRows {rows m : Nat} {columns : List Counters} {target : List Int}
    (widths : ∀ c ∈ columns, c.length = rows + m) (width : target.length = rows + m)
    (stuck : reduceRows rows columns target = none) (y : List Int) :
    (combine (rows + m) columns y).take rows ≠ target.take rows := by
  induction rows generalizing columns target y with
  | zero => simp [reduceRows] at stuck
  | succ rows ih =>
    intro same
    cases target with
    | nil =>
      simp only [List.length_nil] at width
      omega
    | cons t target =>
      have targetWidth : target.length = rows + m := by
        simp only [List.length_cons] at width
        omega
      have shape : rows + 1 + m = rows + m + 1 := by omega
      rw [shape] at widths same
      have gathered := gather_gathers columns widths
      obtain ⟨p, z, sum⟩ := gathered.keeps y
      rw [sum] at same
      simp only [reduceRows] at stuck
      split at stuck
      · rename_i others found
        simp only [found, pivotColumn] at same gathered
        have nothing : scale p (zero (rows + m + 1)) = zero (rows + m + 1) := by
          simp [scale, zero]
        rw [nothing, Counters.zero_add (by simp [length_combine z gathered.others_width])] at same
        simp only [List.take_succ_cons, List.cons.injEq] at same
        rw [if_pos same.1.symm] at stuck
        exact ih gathered.others_width targetWidth stuck z same.2
      · rename_i h tail others found
        simp only [found, pivotColumn, Counters.scale_cons, Counters.add_cons, Int.add_zero, List.take_succ_cons,
          List.cons.injEq] at same gathered
        have entry : h ≠ 0 := gathered.pivot_ne_zero (h, tail) rfl
        have tailWidth : tail.length = rows + m := gathered.pivot_width (h, tail) rfl
        have multiple : t % h = 0 := by
          rw [← same.1]
          exact Int.mul_emod_left p h
        have quotient : t / h = p := by
          rw [← same.1]
          exact Int.mul_ediv_cancel p entry
        rw [if_pos multiple, quotient] at stuck
        refine ih gathered.others_width (by simp [targetWidth, tailWidth]) stuck z ?_
        rw [take_add, take_scale] at same ⊢
        exact eq_sub_of_add_eq
          (by simp [length_combine z gathered.others_width, tailWidth]) same.2

/-- Without coefficients found there are none. -/
theorem combine_ne_of_combination? {columns : List Counters} {target : Counters}
    (widths : ∀ c ∈ columns, c.length = target.length) (stuck : combination? columns target = none)
    (y : List Int) : combine target.length columns y ≠ target := by
  intro same
  simp only [combination?, Option.map_eq_none_iff] at stuck
  refine combine_ne_of_reduceRows (m := columns.length) ?_ (by simp) stuck y ?_
  · intro c mem
    obtain ⟨⟨column, k⟩, inside, rfl⟩ := List.mem_map.1 mem
    have member := List.fst_mem_of_mem_zipIdx inside
    simp [unitVector, widths column member]
  · rw [take_combine (Nat.le_add_right _ _), List.take_left' rfl]
    have first : (columns.zipIdx.map fun p => p.1 ++ unitVector columns.length p.2).map
        (·.take target.length) = columns := by
      rw [List.map_map]
      refine (List.map_congr_left fun p inside => ?_).trans (List.zipIdx_map_fst 0 columns)
      exact List.take_left' (widths p.1 (List.fst_mem_of_mem_zipIdx inside))
    rw [first, same]

end ZeroRun.Linear
