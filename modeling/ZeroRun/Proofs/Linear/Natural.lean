import ZeroRun.Linear.Natural
import ZeroRun.Proofs.Linear.Lattice
import ZeroRun.Proofs.Linear.Refutation
import ZeroRun.Proofs.Linear.Separation

/-! The thorough search misses no solution in natural numbers. A functional that is negative on no
column bounds the unknowns of the columns it is positive on, and all values within the bound are
tried. -/
namespace ZeroRun.Linear
open Counters (add scale zero dot)

/-! ## Bounds by functionals -/

theorem getD_mem {α : Type} {items : List α} (d : α) {k : Nat}
    (inside : k < items.length) : items.getD k d ∈ items := by
  rw [List.getD_eq_getElem?_getD, List.getElem?_eq_getElem inside, Option.getD_some]
  exact List.getElem_mem inside

theorem mem_getD_or_eraseIdx {α : Type} {columns : List α} {c d : α} {k : Nat}
    (inside : k < columns.length) (mem : c ∈ columns) :
    c = columns.getD k d ∨ c ∈ columns.eraseIdx k := by
  induction columns generalizing k with
  | nil => simp at mem
  | cons a columns ih =>
    cases k with
    | zero => simpa using mem
    | succ k =>
      rcases List.mem_cons.1 mem with rfl | mem
      · simp
      · have rest := ih (by simpa using inside) mem
        rcases rest with here | later
        · exact .inl (by simpa using here)
        · exact .inr (by simp [later])

/-- No functional of a survey is negative on a column. -/
def Survey.Sound (survey : Survey) (columns : List Counters) : Prop :=
  ∀ f ∈ survey.functionals, ∀ c ∈ columns, 0 ≤ dot f c

theorem Survey.Sound.extend {survey : Survey} {columns : List Counters} {d k : Nat}
    (sound : survey.Sound columns) (widths : ∀ c ∈ columns, c.length = d)
    (inside : k < columns.length) : (survey.extend columns k).Sound columns := by
  have headMem := getD_mem [] inside
  have separates := separate_separates (columns.getD k []) (columns.eraseIdx k) (by
    intro c mem
    rw [widths c (List.mem_of_mem_eraseIdx mem), widths _ headMem])
  simp only [Survey.extend]
  split
  · exact sound
  · rename_i weightless
    intro f mem c inColumns
    rcases List.mem_cons.1 mem with rfl | mem
    · rcases mem_getD_or_eraseIdx (d := []) inside inColumns with here | rest
      · rw [here]
        exact separates.head_nonneg (by omega)
      · exact separates.columns_nonneg c rest
    · exact sound f mem c inColumns

/-- What an extension keeps holds of the whole survey. -/
theorem surveyOf_invariant {columns : List Counters} {motive : Survey → Prop} (start : motive {})
    (extend : ∀ survey k, k < columns.length → motive survey → motive (survey.extend columns k)) :
    motive (surveyOf columns) := by
  have invariant : ∀ (ks : List Nat) (survey : Survey), (∀ k ∈ ks, k < columns.length) →
      motive survey → motive (ks.foldl (fun survey k =>
        if survey.covers columns k then survey else survey.extend columns k) survey) := by
    intro ks
    induction ks with
    | nil => exact fun survey _ holds => holds
    | cons k ks ih =>
      intro survey inside holds
      refine ih _ (fun j mem => inside j (by simp [mem])) ?_
      dsimp only
      split
      · exact holds
      · exact extend survey k (inside k (by simp)) holds
  exact invariant _ {} (fun k mem => List.mem_range.1 mem) start

theorem surveyOf_sound {columns : List Counters} {d : Nat}
    (widths : ∀ c ∈ columns, c.length = d) : (surveyOf columns).Sound columns := by
  refine surveyOf_invariant (motive := fun survey => survey.Sound columns) ?_ ?_
  · intro f mem
    simp at mem
  · intro survey k inside sound
    exact sound.extend widths inside

theorem dot_combine {d : Nat} {columns : List Counters} {f : Counters} {x : List Int}
    (widths : ∀ c ∈ columns, c.length = d) :
    dot f (combine d columns x) = dot x (columns.map (dot f)) := by
  induction columns generalizing x with
  | nil => simp [Counters.dot_zero]
  | cons c columns ih =>
    have rest : ∀ a ∈ columns, a.length = d := fun a mem => widths a (by simp [mem])
    cases x with
    | nil => simp [combine, Counters.dot_zero]
    | cons v x =>
      rw [combine_cons, Counters.dot_add f (by simp [length_combine x rest, widths c (by simp)]),
        Counters.dot_scale, ih rest]
      simp

/-- One term of a sum without negative terms is at most the sum. -/
theorem getD_mul_le_dot {a b : Counters} (left : a.isNonneg = true) (right : ∀ y ∈ b, 0 ≤ y)
    (k : Nat) : a.getD k 0 * b.getD k 0 ≤ dot a b := by
  induction a generalizing b k with
  | nil => simp
  | cons x a ih =>
    cases b with
    | nil => simp
    | cons y b =>
      simp only [Counters.isNonneg, List.all_cons, Bool.and_eq_true, decide_eq_true_eq] at left
      have head : 0 ≤ x * y := Int.mul_nonneg left.1 (right y (by simp))
      have nonneg : 0 ≤ dot a b :=
        Counters.dot_nonneg left.2 (Counters.isNonneg_iff.2 fun z mem => right z (by simp [mem]))
      cases k with
      | zero =>
        simp only [List.getD_cons_zero, Counters.dot_cons]
        omega
      | succ k =>
        have rest := ih (b := b) left.2 (fun z mem => right z (by simp [mem])) k
        simp only [List.getD_cons_succ, Counters.dot_cons]
        omega

/-! ## Systems of equations -/

/-- A solution in natural numbers of the system with the given columns and target. -/
structure Solves (columns : List Counters) (target : Counters) (x : Counters) : Prop where
  width : x.length = columns.length
  nonneg : x.isNonneg = true
  sum : combine target.length columns x = target

theorem combine_eraseIdx {d k : Nat} {columns : List Counters} {x : List Int}
    (widths : ∀ c ∈ columns, c.length = d) (width : x.length = columns.length)
    (inside : k < columns.length) :
    combine d columns x =
      add (scale (x.getD k 0) (columns.getD k [])) (combine d (columns.eraseIdx k) (x.eraseIdx k)) := by
  induction columns generalizing x k with
  | nil => simp at inside
  | cons c columns ih =>
    cases x with
    | nil => simp at width
    | cons v x =>
      cases k with
      | zero => simp
      | succ k =>
        have rest := ih (k := k) (fun a mem => widths a (by simp [mem])) (by simpa using width)
          (by simpa using inside)
        simp only [combine_cons, rest, List.getD_cons_succ, List.eraseIdx_cons_succ]
        rw [← Counters.add_assoc, ← Counters.add_assoc, Counters.add_comm (scale v c)]

/-- Fixing the value of one unknown leaves a smaller system. -/
theorem Solves.erase {columns : List Counters} {target x : Counters} {k : Nat}
    (solves : Solves columns target x) (widths : ∀ c ∈ columns, c.length = target.length)
    (inside : k < columns.length) :
    Solves (columns.eraseIdx k) (remaining target (columns.getD k []) (x.getD k 0))
      (x.eraseIdx k) := by
  have columnWidth := widths _ (getD_mem [] inside)
  have restWidths : ∀ c ∈ columns.eraseIdx k, c.length = target.length :=
    fun c mem => widths c (List.mem_of_mem_eraseIdx mem)
  refine ⟨?_, ?_, ?_⟩
  · rw [List.length_eraseIdx_of_lt inside,
      List.length_eraseIdx_of_lt (by rw [solves.width]; exact inside), solves.width]
  · exact Counters.isNonneg_iff.2 fun v mem =>
      Counters.isNonneg_iff.1 solves.nonneg v (List.mem_of_mem_eraseIdx mem)
  · have sum := solves.sum
    rw [combine_eraseIdx widths solves.width inside] at sum
    have length : (remaining target (columns.getD k []) (x.getD k 0)).length = target.length := by
      simp only [remaining, Counters.length_add, Counters.length_scale, columnWidth, Nat.min_self]
    rw [length]
    exact eq_sub_of_add_eq (by rw [length_combine _ restWidths, columnWidth]) sum

/-- A functional without negative values bounds the unknown of a column it is positive on. -/
theorem Solves.le_bound {columns : List Counters} {target x f : Counters} {k : Nat} {bound : Int}
    (solves : Solves columns target x) (widths : ∀ c ∈ columns, c.length = target.length)
    (nonneg : ∀ c ∈ columns, 0 ≤ dot f c)
    (bounded : boundBy? target (columns.getD k []) f = some bound) : x.getD k 0 ≤ bound := by
  simp only [boundBy?] at bounded
  split at bounded
  · rename_i slope
    cases bounded
    rw [Int.le_ediv_iff_mul_le slope]
    have read : (columns.map (dot f)).getD k 0 = dot f (columns.getD k []) := by
      rw [List.getD_eq_getElem?_getD, List.getD_eq_getElem?_getD, List.getElem?_map]
      cases columns[k]? <;> simp
    have values : ∀ y ∈ columns.map (dot f), 0 ≤ y := by
      intro y mem
      obtain ⟨c, inside, rfl⟩ := List.mem_map.1 mem
      exact nonneg c inside
    calc x.getD k 0 * dot f (columns.getD k [])
        = x.getD k 0 * (columns.map (dot f)).getD k 0 := by rw [read]
      _ ≤ dot x (columns.map (dot f)) := getD_mul_le_dot solves.nonneg values k
      _ = dot f target := by rw [← dot_combine widths, solves.sum]
  · cases bounded

theorem mem_of_tightest {bounds : List (Nat × Int)} {b : Nat × Int}
    (found : tightest bounds = some b) : b ∈ bounds := by
  induction bounds with
  | nil => simp [tightest] at found
  | cons a bounds ih =>
    simp only [tightest] at found
    split at found
    · simp_all
    · rename_i c rest
      split at found
      · simp_all
      · cases found
        exact List.mem_cons_of_mem a (ih rest)

theorem tryFrom_eq_none {α : Type} {f : Nat → Option α} {count start : Nat}
    (failed : tryFrom f count start = none) {v : Nat} (low : start ≤ v) (high : v < start + count) :
    f v = none := by
  induction count generalizing start with
  | zero => omega
  | succ count ih =>
    simp only [tryFrom] at failed
    split at failed
    · cases failed
    · rename_i here
      by_cases same : v = start
      · rw [same, here]
      · exact ih failed (by omega) (by omega)

/-- A system for which nothing is found has no solution. -/
theorem not_solves_of_solveWithin {n : Nat} {columns : List Counters} {target : Counters}
    (size : columns.length = n) (widths : ∀ c ∈ columns, c.length = target.length)
    (failed : solveWithin n columns target = none) (x : Counters) : ¬ Solves columns target x := by
  induction n generalizing columns target x with
  | zero =>
    intro solves
    have empty := List.eq_nil_of_length_eq_zero size
    subst empty
    have zero : target.isZero = true := by
      rw [Counters.isZero_iff, ← solves.sum]
      simp
    simp [solveWithin, zero] at failed
  | succ n ih =>
    intro solves
    simp only [solveWithin] at failed
    split at failed
    · rename_i stuck
      exact combine_ne_of_combination? widths stuck x solves.sum
    · rename_i z found
      split at failed
      · rename_i k bound tight
        have mem := mem_of_tightest tight
        simp only [List.mem_filterMap, List.mem_range, boundOf?, Option.map_eq_some_iff,
          Prod.mk.injEq] at mem
        obtain ⟨j, inside, value, least, rfl, rfl⟩ := mem
        obtain ⟨f, inSurvey, bounded⟩ := List.mem_filterMap.1 (List.min?_mem least)
        have upper := solves.le_bound widths (surveyOf_sound widths f inSurvey) bounded
        have lower : 0 ≤ x.getD j 0 := by
          rw [List.getD_eq_getElem?_getD]
          cases entry : x[j]? with
          | none => simp
          | some v => exact Counters.isNonneg_iff.1 solves.nonneg v (List.mem_of_getElem? entry)
        have tried := tryFrom_eq_none failed (v := (x.getD j 0).toNat) (by omega) (by omega)
        rw [Option.map_eq_none_iff, Int.toNat_of_nonneg lower] at tried
        refine ih ?_ ?_ tried (x.eraseIdx j) (solves.erase widths inside)
        · rw [List.length_eraseIdx_of_lt inside, size]
          rfl
        · intro c mem
          rw [widths c (List.mem_of_mem_eraseIdx mem)]
          simp only [remaining, Counters.length_add, Counters.length_scale, widths _ (getD_mem [] inside),
            Nat.min_self]
      · cases failed

/-! ## Constraints and clauses -/

theorem getD_add {a b : Counters} (same : a.length = b.length) (i : Nat) :
    (add a b).getD i 0 = a.getD i 0 + b.getD i 0 := by
  simp only [add, List.getD_eq_getElem?_getD, List.getElem?_zipWith]
  by_cases inside : i < a.length
  · simp [List.getElem?_eq_getElem inside, List.getElem?_eq_getElem (same ▸ inside)]
  · simp [List.getElem?_eq_none (Nat.le_of_not_lt inside),
      List.getElem?_eq_none (same ▸ Nat.le_of_not_lt inside)]

theorem getD_scale (k : Int) (a : Counters) (i : Nat) : (scale k a).getD i 0 = k * a.getD i 0 := by
  simp only [scale, List.getD_eq_getElem?_getD, List.getElem?_map]
  cases a[i]? <;> simp

theorem getD_zero (n i : Nat) : (zero n).getD i 0 = 0 := by
  simp only [zero, List.getD_eq_getElem?_getD, List.getElem?_replicate]
  split <;> simp

/-- An entry of a combination is the combination of the entries. -/
theorem getD_combine {d : Nat} {columns : List Counters} (x : List Int)
    (widths : ∀ c ∈ columns, c.length = d) (i : Nat) :
    (combine d columns x).getD i 0 = dot (columns.map (·.getD i 0)) x := by
  induction columns generalizing x with
  | nil => rw [combine_nil, getD_zero, List.map_nil, Counters.nil_dot]
  | cons c columns ih =>
    have rest : ∀ a ∈ columns, a.length = d := fun a mem => widths a (by simp [mem])
    cases x with
    | nil => rw [combine, getD_zero, Counters.dot_nil]; simp
    | cons v x =>
      rw [combine_cons, getD_add (by simp [length_combine x rest, widths c (by simp)]),
        getD_scale, ih x rest, List.map_cons, Counters.dot_cons, Int.mul_comm]

theorem combine_append {d : Nat} {left right : List Counters} {x y : List Int}
    (width : x.length = left.length) (widths : ∀ c ∈ right, c.length = d) :
    combine d (left ++ right) (x ++ y) = add (combine d left x) (combine d right y) := by
  induction left generalizing x with
  | nil =>
    rw [List.eq_nil_of_length_eq_zero width]
    simp [Counters.zero_add (length_combine y widths)]
  | cons c left ih =>
    cases x with
    | nil => simp at width
    | cons v x => simp [ih (by simpa using width), Counters.add_assoc]

/-- Reading as many coefficients as there are unknowns gives the weighted sum. -/
theorem dot_padded (a x : List Int) :
    dot ((List.range x.length).map fun k => a.getD k 0) x = dot a x := by
  induction x generalizing a with
  | nil => simp
  | cons v x ih =>
    rw [List.length_cons, List.range_succ_eq_map, List.map_cons, List.map_map, Counters.dot_cons]
    cases a with
    | nil => simpa [Function.comp_def] using ih []
    | cons b a => simpa [Function.comp_def] using ih a

/-- What an inequality leaves over at a vector; an equation leaves nothing. -/
def slackAt? (constraints : List Constraint) (x : Counters) (k : Nat) : Option Int :=
  match constraints[k]? with
  | some ⟨a, .atMost, bound⟩ => some (bound - dot a x)
  | some ⟨a, .atLeast, bound⟩ => some (dot a x - bound)
  | _ => none

theorem getD_unitVector {n k i : Nat} (inside : i < n) :
    (unitVector n k).getD i 0 = if i = k then 1 else 0 := by
  simp [unitVector, List.getD_eq_getElem?_getD, inside]

/-- The slack columns, with what is left over at a vector, fill each row up to its bound. -/
theorem dot_slacks {constraints : List Constraint} {x : Counters} {c : Constraint} {i : Nat}
    (holds : c.holds x = true) (row : constraints[i]? = some c) (ks : List Nat)
    (nodup : ks.Nodup) :
    dot ((ks.filterMap (slackOf? constraints)).map (·.getD i 0))
        (ks.filterMap (slackAt? constraints x)) =
      if i ∈ ks then c.bound - dot c.coefficients x else 0 := by
  have inside : i < constraints.length := (List.getElem?_eq_some_iff.1 row).1
  induction ks with
  | nil => simp
  | cons k ks ih =>
    have rest := ih (List.nodup_cons.1 nodup).2
    by_cases here : i = k
    · subst here
      have absent : i ∉ ks := (List.nodup_cons.1 nodup).1
      obtain ⟨a, comparison, bound⟩ := c
      cases comparison with
      | atMost =>
        simp [-List.getD_eq_getElem?_getD, slackOf?, slackAt?, row, rest, absent,
          getD_unitVector inside]
      | atLeast =>
        simp only [slackOf?, row, Option.some.injEq, List.filterMap_cons_some, List.map_cons,
          getD_scale, getD_unitVector inside, if_true, Int.mul_one, slackAt?, Counters.dot_cons,
          Int.neg_one_mul, Int.neg_sub, rest, absent, Int.add_zero, List.mem_cons, or_false,
          if_false]
      | equal =>
        simp [-List.getD_eq_getElem?_getD, slackOf?, slackAt?, row, rest, absent,
          holds_equal.1 holds]
    · simp only [List.mem_cons, here, false_or]
      rw [← rest]
      cases other : constraints[k]? with
      | none => simp [slackOf?, slackAt?, other]
      | some e =>
        obtain ⟨a, comparison, bound⟩ := e
        cases comparison <;>
          simp [-List.getD_eq_getElem?_getD, slackOf?, slackAt?, other, getD_scale,
            getD_unitVector inside, here]

theorem length_columnOf (constraints : List Constraint) (k : Nat) :
    (columnOf constraints k).length = constraints.length := by
  simp [columnOf]

theorem length_slackOf {constraints : List Constraint} {k : Nat} {column : Counters}
    (slack : slackOf? constraints k = some column) : column.length = constraints.length := by
  simp only [slackOf?] at slack
  split at slack
  · cases slack
    simp [unitVector]
  · cases slack
    simp [unitVector]
  · cases slack

/-- What is left over where an inequality holds is a natural number, one for each slack column. -/
theorem slackAt_nonneg {constraints : List Constraint} {x : Counters} {k : Nat} {v : Int}
    (holds : ∀ c ∈ constraints, c.holds x = true) (slack : slackAt? constraints x k = some v) :
    0 ≤ v := by
  simp only [slackAt?] at slack
  split at slack
  · rename_i a bound row
    cases slack
    have upper := holds_atMost.1 (holds _ (List.mem_of_getElem? row))
    omega
  · rename_i a bound row
    cases slack
    have lower := holds_atLeast.1 (holds _ (List.mem_of_getElem? row))
    omega
  · cases slack

theorem length_slacks (constraints : List Constraint) (x : Counters) (ks : List Nat) :
    (ks.filterMap (slackAt? constraints x)).length =
      (ks.filterMap (slackOf? constraints)).length := by
  induction ks with
  | nil => rfl
  | cons k ks ih =>
    cases row : constraints[k]? with
    | none => simp [slackAt?, slackOf?, row, ih]
    | some c =>
      obtain ⟨a, comparison, bound⟩ := c
      cases comparison <;> simp [slackAt?, slackOf?, row, ih]

theorem length_of_mem_columns (constraints : List Constraint) (n : Nat) :
    ∀ c ∈ (List.range n).map (columnOf constraints), c.length = constraints.length := by
  intro c mem
  obtain ⟨k, -, rfl⟩ := List.mem_map.1 mem
  exact length_columnOf constraints k

theorem length_of_mem_slacks (constraints : List Constraint) :
    ∀ c ∈ (List.range constraints.length).filterMap (slackOf? constraints),
      c.length = constraints.length := by
  intro c mem
  obtain ⟨k, -, slack⟩ := List.mem_filterMap.1 mem
  exact length_slackOf slack

/-- A row of the columns of the unknowns is the weighted sum of a constraint. -/
theorem getD_combine_columns {constraints : List Constraint} {i : Nat} {c : Constraint}
    (row : constraints[i]? = some c) (x : List Int) :
    (combine constraints.length ((List.range x.length).map (columnOf constraints)) x).getD i 0 =
      dot c.coefficients x := by
  rw [getD_combine x (length_of_mem_columns constraints x.length), List.map_map,
    ← dot_padded c.coefficients]
  congr 1
  refine List.map_congr_left fun k _ => ?_
  simp [columnOf, List.getD_eq_getElem?_getD, row]

/-- A model, with what each inequality leaves over, solves the system of equations. -/
theorem solves_of_holds {constraints : List Constraint} {x : Counters}
    (nonneg : x.isNonneg = true) (holds : ∀ c ∈ constraints, c.holds x = true) :
    Solves ((List.range x.length).map (columnOf constraints) ++
        (List.range constraints.length).filterMap (slackOf? constraints))
      (constraints.map Constraint.bound)
      (x ++ (List.range constraints.length).filterMap (slackAt? constraints x)) := by
  have columnWidths := length_of_mem_columns constraints x.length
  have slackWidths := length_of_mem_slacks constraints
  refine ⟨by simp [length_slacks], ?_, ?_⟩
  · refine Counters.isNonneg_iff.2 fun v mem => ?_
    rcases List.mem_append.1 mem with mem | mem
    · exact Counters.isNonneg_iff.1 nonneg v mem
    · obtain ⟨k, -, slack⟩ := List.mem_filterMap.1 mem
      exact slackAt_nonneg holds slack
  · rw [List.length_map, combine_append (by simp) slackWidths]
    refine List.ext_getElem (by simp [length_combine _ columnWidths, length_combine _ slackWidths])
      fun i left right => ?_
    have inside : i < constraints.length := by simpa using right
    have row : constraints[i]? = some constraints[i] := List.getElem?_eq_getElem inside
    have unknowns := getD_combine_columns row x
    have slacks := dot_slacks (holds _ (List.getElem_mem inside)) row (List.range constraints.length)
      List.nodup_range
    rw [← getD_combine _ slackWidths, if_pos (List.mem_range.2 inside)] at slacks
    have entry := getD_add (a := combine constraints.length
        ((List.range x.length).map (columnOf constraints)) x)
      (b := combine constraints.length
        ((List.range constraints.length).filterMap (slackOf? constraints))
        ((List.range constraints.length).filterMap (slackAt? constraints x)))
      (by simp [length_combine _ columnWidths, length_combine _ slackWidths]) i
    rw [unknowns, slacks, List.getD_eq_getElem?_getD, List.getElem?_eq_getElem left,
      Option.getD_some] at entry
    rw [entry, List.getElem_map]
    omega

/-- Constraints for which nothing is found have no model. -/
theorem not_holds_of_naturalModel? {n : Nat} {constraints : List Constraint}
    (failed : naturalModel? n constraints = none) {x : Counters} (width : x.length = n)
    (nonneg : x.isNonneg = true) : ¬ ∀ c ∈ constraints, c.holds x = true := by
  intro holds
  subst width
  simp only [naturalModel?, Option.map_eq_none_iff, naturalSolution?] at failed
  refine not_solves_of_solveWithin rfl ?_ failed _ (solves_of_holds nonneg holds)
  intro c mem
  rw [List.length_map]
  rcases List.mem_append.1 mem with mem | mem
  · exact length_of_mem_columns constraints x.length c mem
  · exact length_of_mem_slacks constraints c mem

/-- If no choice of a clause can be added to the constraints, no model satisfies the clause. -/
theorem not_holds_of_splitOver {solve : List Constraint → Option (List Int)} {x : Counters}
    (complete : ∀ constraints, solve constraints = none →
      ¬ ∀ c ∈ constraints, c.holds x = true)
    {choices constraints : List Constraint} (failed : splitOver solve choices constraints = none)
    (holds : ∀ c ∈ constraints, c.holds x = true) : Clause.holds choices x = false := by
  induction choices generalizing constraints with
  | nil => rfl
  | cons choice choices ih =>
    simp only [splitOver] at failed
    split at failed
    · cases failed
    · rename_i first
      cases here : choice.holds x with
      | true => exact absurd (by simpa [here] using holds) (complete _ first)
      | false =>
        have rest := ih failed fun c mem => by
          rcases List.mem_append.1 mem with mem | mem
          · exact negation_holds here mem
          · exact holds c mem
        simpa [Clause.holds, here] using rest

/-- Constraints and clauses for which nothing is found have no model. -/
theorem no_model_of_thoroughModel? {n : Nat} {constraints : List Constraint}
    {clauses : List Clause} (failed : thoroughModel? n constraints clauses = none)
    (x : Counters) : isModel n constraints clauses x = false := by
  rw [Bool.eq_false_iff]
  intro model
  obtain ⟨width, nonneg, holds, choices⟩ := isModel_iff.1 model
  -- The clauses left over all hold of the model, and every one of them may have to be split.
  have complete : ∀ (left : Nat) (clauses : List Clause), clauses.length = left →
      (∀ clause ∈ clauses, Clause.holds clause x = true) → ∀ constraints,
      modelWithin n left clauses constraints = none → ¬ ∀ c ∈ constraints, c.holds x = true := by
    intro left
    induction left with
    | zero =>
      intro clauses _ _ constraints failed
      exact not_holds_of_naturalModel? failed width nonneg
    | succ left ih =>
      intro clauses size choices constraints failed holds
      simp only [modelWithin] at failed
      split at failed
      · rename_i none
        exact not_holds_of_naturalModel? none width nonneg holds
      · split at failed
        · cases failed
        · rename_i y _ k found
          have inside : k < clauses.length := (List.findIdx?_eq_some_iff_findIdx_eq.1 found).1
          have split := not_holds_of_splitOver
            (ih (clauses.eraseIdx k) (by rw [List.length_eraseIdx_of_lt inside, size]; rfl)
              fun clause mem => choices clause (List.mem_of_mem_eraseIdx mem)) failed holds
          rw [choices _ (getD_mem [] inside)] at split
          cases split
  exact complete clauses.length clauses rfl choices constraints failed holds

end ZeroRun.Linear
