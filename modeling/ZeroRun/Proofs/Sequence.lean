import Mathlib
import ZeroRun.Sequence

/-! Lists of pairs as tables, lists in lexicographic order, lists without repetitions, and what is
found by spreading from a start: exactly what the start leads to, provided that all of it lies in a
list no longer than the rounds allow. -/
namespace ZeroRun
open Relation (ReflTransGen)

/-! ## Tables -/

section Tables
variable {κ β : Type} [DecidableEq κ]

theorem mem_of_lookup_eq_some {table : List (κ × β)} {key : κ} {value : β}
    (found : table.lookup key = some value) : (key, value) ∈ table := by
  obtain ⟨before, after, rfl, -⟩ := List.lookup_eq_some_iff.1 found
  simp

theorem lookup_eq_some_iff {table : List (κ × β)} (nodup : (table.map Prod.fst).Nodup) {key : κ}
    {value : β} : table.lookup key = some value ↔ (key, value) ∈ table := by
  refine ⟨mem_of_lookup_eq_some, fun mem => ?_⟩
  obtain ⟨before, after, rfl⟩ := List.append_of_mem mem
  refine List.lookup_eq_some_iff.2 ⟨before, after, rfl, fun entry earlier => ?_⟩
  rw [List.map_append, List.map_cons, List.nodup_append] at nodup
  exact bne_iff_ne.2
    (nodup.2.2 _ (List.mem_map_of_mem earlier) _ List.mem_cons_self).symm

theorem lookup_filter_key (table : List (κ × β)) (keep : κ → Bool) (key : κ) :
    (table.filter fun entry => keep entry.1).lookup key =
      if keep key then table.lookup key else none := by
  induction table with
  | nil => simp
  | cons entry table ih =>
    obtain ⟨other, value⟩ := entry
    by_cases same : key = other
    · subst same
      cases kept : keep key <;> simp [kept, List.lookup, ih]
    · have apart : (key == other) = false := beq_eq_false_iff_ne.2 same
      cases kept : keep other <;> simp [kept, List.lookup, apart, ih]

theorem lookup_map_value {γ : Type} (table : List (κ × β)) (f : β → γ) (key : κ) :
    (table.map fun entry => (entry.1, f entry.2)).lookup key = (table.lookup key).map f := by
  induction table with
  | nil => rfl
  | cons entry table ih =>
    obtain ⟨other, value⟩ := entry
    cases same : key == other <;> simp [List.lookup, same, ih]

end Tables

/-! ## Order -/

/-- Of lists of one length, the items before the last decide first. -/
theorem concat_lt_concat_iff {u v : List Int} {a b : Int} (same : u.length = v.length) :
    u ++ [a] < v ++ [b] ↔ u < v ∨ (u = v ∧ a < b) := by
  induction u generalizing v with
  | nil =>
    obtain rfl := List.length_eq_zero_iff.1 same.symm
    simp [List.cons_lt_cons_iff]
  | cons x u ih =>
    cases v with
    | nil => cases same
    | cons y v =>
      have rest := ih (Nat.succ.inj same)
      simp only [List.cons_append, List.cons_lt_cons_iff, rest, List.cons.injEq]
      tauto

/-! ## Repetitions -/

variable {α : Type} [DecidableEq α] {next : α → List α}

theorem distinct_sublist (xs : List α) : (distinct xs).Sublist xs := by
  induction xs with
  | nil => exact .slnil
  | cons x xs ih => exact (List.filter_sublist.trans ih).cons_cons x

theorem distinct_of_nodup {xs : List α} (nodup : xs.Nodup) : distinct xs = xs := by
  induction xs with
  | nil => rfl
  | cons x xs ih =>
    obtain ⟨fresh, rest⟩ := List.nodup_cons.1 nodup
    rw [distinct, ih rest, List.filter_eq_self.2 fun y mem => ?_]
    simp only [ne_eq, decide_not, Bool.not_eq_true', decide_eq_false_iff_not]
    rintro rfl
    exact fresh mem

/-- Items can be left out before or after their repetitions. -/
theorem filter_distinct (keep : α → Bool) (xs : List α) :
    (distinct xs).filter keep = distinct (xs.filter keep) := by
  induction xs with
  | nil => rfl
  | cons x xs ih =>
    rw [distinct]
    by_cases kept : keep x = true
    · rw [List.filter_cons_of_pos kept, List.filter_cons_of_pos kept, distinct, ← ih,
        List.filter_comm]
    · rw [List.filter_cons_of_neg kept, List.filter_cons_of_neg kept, ← ih, List.filter_filter]
      refine List.filter_congr fun y _ => ?_
      by_cases same : y = x
      · simp [same, kept]
      · simp [same]

omit [DecidableEq α] in
/-- Items from which nothing comes may be left out. -/
theorem flatMap_filter {β : Type} {f : α → List β} {keep : α → Bool} {xs : List α}
    (barren : ∀ x ∈ xs, keep x = false → f x = []) : (xs.filter keep).flatMap f = xs.flatMap f := by
  induction xs with
  | nil => rfl
  | cons x xs ih =>
    have rest := ih fun y mem => barren y (List.mem_cons_of_mem _ mem)
    cases kept : keep x with
    | true => rw [List.filter_cons_of_pos kept, List.flatMap_cons, List.flatMap_cons, rest]
    | false =>
      rw [List.filter_cons_of_neg (by simp [kept]), List.flatMap_cons,
        barren x List.mem_cons_self kept, rest, List.nil_append]

omit [DecidableEq α] in
/-- An initial part that has all items of a kind, and no others, is what is left if these are
kept. -/
theorem eq_filter_of_prefix {xs ys : List α} {keep : α → Bool} (first : xs <+: ys)
    (nodup : ys.Nodup) (kind : ∀ y ∈ ys, keep y = true ↔ y ∈ xs) : xs = ys.filter keep := by
  obtain ⟨rest, rfl⟩ := first
  have inside : xs.filter keep = xs :=
    List.filter_eq_self.2 fun y mem => (kind y (List.mem_append_left _ mem)).2 mem
  have outside : rest.filter keep = [] := by
    refine List.filter_eq_nil_iff.2 fun y mem kept => ?_
    have early := (kind y (List.mem_append_right _ mem)).1 kept
    exact List.disjoint_of_nodup_append nodup early mem
  rw [List.filter_append, inside, outside, List.append_nil]

/-! ## Spreading -/

theorem subset_spreadFrom (rounds : Nat) (found latest : List α) :
    found ⊆ spreadFrom next rounds found latest := by
  induction rounds generalizing found latest with
  | zero => exact fun _ mem => mem
  | succ rounds ih =>
    simp only [spreadFrom]
    split
    · exact fun _ mem => mem
    · exact fun _ mem => ih _ _ (List.mem_append_left _ mem)

/-- Nothing is found that the items found before do not lead to. -/
theorem exists_of_mem_spreadFrom {rounds : Nat} {found latest : List α} {y : α}
    (known : latest ⊆ found) (mem : y ∈ spreadFrom next rounds found latest) :
    ∃ x ∈ found, ReflTransGen (fun a b => b ∈ next a) x y := by
  induction rounds generalizing found latest with
  | zero => exact ⟨y, mem, .refl⟩
  | succ rounds ih =>
    simp only [spreadFrom] at mem
    split at mem
    · exact ⟨y, mem, .refl⟩
    · obtain ⟨x, inside, path⟩ := ih (List.subset_append_right _ _) mem
      rcases List.mem_append.1 inside with old | new
      · exact ⟨x, old, path⟩
      · have reached := mem_distinct.1 (List.mem_filter.1 new).1
        obtain ⟨z, last, step⟩ := List.mem_flatMap.1 reached
        exact ⟨z, known last, .head step path⟩

/-- Items found before the latest ones have been spread from. -/
def SpreadBehind (next : α → List α) (found latest : List α) : Prop :=
  ∀ x ∈ found, x ∈ latest ∨ ∀ y ∈ next x, y ∈ found

omit [DecidableEq α] in
/-- Without repetitions, a list that is as long as one around it covers it. -/
theorem subset_of_length_le {found whole : List α} (nodup : found.Nodup)
    (inside : found ⊆ whole) (long : whole.length ≤ found.length) : whole ⊆ found :=
  ((List.subperm_of_subset nodup inside).perm_of_length_le long).symm.subset

/-- The items that one more round finds. -/
def newFrom (next : α → List α) (found latest : List α) : List α :=
  (distinct (latest.flatMap next)).filter (· ∉ found)

theorem mem_newFrom {found latest : List α} {y : α} :
    y ∈ newFrom next found latest ↔ (∃ x ∈ latest, y ∈ next x) ∧ y ∉ found := by
  simp [newFrom, mem_distinct]

theorem spreadFrom_succ (rounds : Nat) (found latest : List α) :
    spreadFrom next (rounds + 1) found latest =
      if newFrom next found latest = [] then found
      else spreadFrom next rounds (found ++ newFrom next found latest)
        (newFrom next found latest) := by
  rw [spreadFrom]
  split
  · rename_i empty
    exact (if_pos empty).symm
  · rename_i nonempty
    exact (if_neg nonempty).symm

theorem SpreadBehind.grow {found latest : List α} (behind : SpreadBehind next found latest) :
    SpreadBehind next (found ++ newFrom next found latest) (newFrom next found latest) := by
  intro x mem
  rcases List.mem_append.1 mem with old | new
  · right
    intro y step
    rw [List.mem_append]
    rcases behind x old with last | done
    · by_cases known : y ∈ found
      · exact .inl known
      · exact .inr (mem_newFrom.2 ⟨⟨x, last, step⟩, known⟩)
    · exact .inl (done y step)
  · exact .inl new

theorem nodup_append_newFrom {found latest : List α} (nodup : found.Nodup) :
    (found ++ newFrom next found latest).Nodup := by
  refine nodup.append ((nodup_distinct _).filter _) ?_
  intro x old new
  exact (mem_newFrom.1 new).2 old

/-- Spreading comes to an end if something holds round after round that, when no round is left,
leaves nothing new to be found. -/
theorem spreadFrom_closed_of {motive : Nat → List α → List α → Prop}
    (grow : ∀ rounds found latest, motive (rounds + 1) found latest →
      newFrom next found latest ≠ [] →
      motive rounds (found ++ newFrom next found latest) (newFrom next found latest))
    (last : ∀ found latest, motive 0 found latest → newFrom next found latest = [])
    {rounds : Nat} {found latest : List α} (holds : motive rounds found latest)
    (behind : SpreadBehind next found latest) {x y : α}
    (mem : x ∈ spreadFrom next rounds found latest) (step : y ∈ next x) :
    y ∈ spreadFrom next rounds found latest := by
  have closed : ∀ {found latest : List α}, SpreadBehind next found latest →
      newFrom next found latest = [] → x ∈ found → y ∈ found := by
    intro found latest behind nothing mem
    rcases behind x mem with last | done
    · by_contra missing
      have new := mem_newFrom.2 ⟨⟨x, last, step⟩, missing⟩
      rw [nothing] at new
      cases new
    · exact done y step
  induction rounds generalizing found latest with
  | zero => exact closed behind (last found latest holds) mem
  | succ rounds ih =>
    rw [spreadFrom_succ] at mem ⊢
    by_cases nothing : newFrom next found latest = []
    · rw [if_pos nothing] at mem ⊢
      exact closed behind nothing mem
    · rw [if_neg nothing] at mem ⊢
      exact ih (grow rounds found latest holds nothing) behind.grow mem

theorem mem_spread_of_closed {rounds : Nat} {start : List α}
    (closed : ∀ x ∈ spread next rounds start, ∀ y ∈ next x, y ∈ spread next rounds start) {y : α} :
    y ∈ spread next rounds start ↔ ∃ x ∈ start, ReflTransGen (fun a b => b ∈ next a) x y := by
  constructor
  · exact exists_of_mem_spreadFrom (List.Subset.refl _)
  · rintro ⟨x, mem, path⟩
    induction path with
    | refl => exact subset_spreadFrom _ _ _ mem
    | tail _ step ih => exact closed _ ih _ step

/-- Spreading finds exactly what the start leads to. -/
theorem mem_spread {rounds : Nat} {start : List α} (whole : List α) (nodup : start.Nodup)
    (inside : start ⊆ whole) (closed : ∀ x ∈ whole, ∀ y ∈ next x, y ∈ whole)
    (enough : whole.length ≤ start.length + rounds) {y : α} :
    y ∈ spread next rounds start ↔ ∃ x ∈ start, ReflTransGen (fun a b => b ∈ next a) x y := by
  apply mem_spread_of_closed
  intro x mem y step
  -- What has been found stays in the whole, which it exceeds if there are too many rounds.
  refine spreadFrom_closed_of (motive := fun rounds found latest => latest ⊆ found ∧ found.Nodup ∧
    found ⊆ whole ∧ whole.length ≤ found.length + rounds) ?_ ?_
    ⟨List.Subset.refl _, nodup, inside, enough⟩ (fun _ mem => .inl mem) mem step
  · rintro rounds found latest ⟨known, nodup, inside, enough⟩ some
    refine ⟨List.subset_append_right _ _, nodup_append_newFrom nodup, ?_, ?_⟩
    · intro z mem
      rcases List.mem_append.1 mem with old | new
      · exact inside old
      · obtain ⟨⟨w, last, step⟩, -⟩ := mem_newFrom.1 new
        exact closed w (inside (known last)) z step
    · have longer := List.length_pos_of_ne_nil some
      rw [List.length_append]
      omega
  · rintro found latest ⟨known, nodup, inside, enough⟩
    have all := subset_of_length_le nodup inside enough
    rw [List.eq_nil_iff_forall_not_mem]
    intro z new
    obtain ⟨⟨w, last, step⟩, missing⟩ := mem_newFrom.1 new
    exact missing (all (closed w (inside (known last)) z step))

/-- Where each step descends, so do the rounds. -/
theorem lt_of_mem_newFrom {height : α → Nat} (falls : ∀ x, ∀ y ∈ next x, height y < height x)
    {rounds : Nat} {found latest : List α} (low : ∀ x ∈ latest, height x ≤ rounds) {y : α}
    (new : y ∈ newFrom next found latest) : height y < rounds := by
  obtain ⟨⟨x, last, step⟩, -⟩ := mem_newFrom.1 new
  exact (falls x y step).trans_le (low x last)

theorem newFrom_eq_nil_of_falls {height : α → Nat}
    (falls : ∀ x, ∀ y ∈ next x, height y < height x) {found latest : List α}
    (low : ∀ x ∈ latest, height x ≤ 0) : newFrom next found latest = [] := by
  rw [List.eq_nil_iff_forall_not_mem]
  intro y new
  exact absurd (lt_of_mem_newFrom falls low new) (Nat.not_lt_zero _)

/-- Spreading finds exactly what the start leads to if each step descends, and not below zero. -/
theorem mem_spread_of_falls {height : α → Nat} (falls : ∀ x, ∀ y ∈ next x, height y < height x)
    {rounds : Nat} {start : List α} (low : ∀ x ∈ start, height x ≤ rounds) {y : α} :
    y ∈ spread next rounds start ↔ ∃ x ∈ start, ReflTransGen (fun a b => b ∈ next a) x y := by
  apply mem_spread_of_closed
  intro x mem y step
  refine spreadFrom_closed_of (motive := fun rounds _ latest => ∀ x ∈ latest, height x ≤ rounds)
    ?_ ?_ low (fun _ mem => .inl mem) mem step
  · intro rounds found latest low _ z new
    exact Nat.le_of_lt_succ (lt_of_mem_newFrom falls low new)
  · intro found latest low
    exact newFrom_eq_nil_of_falls falls low

/-- Further rounds find nothing if each step descends, and not below zero. -/
theorem spreadFrom_add {height : α → Nat} (falls : ∀ x, ∀ y ∈ next x, height y < height x)
    {rounds : Nat} {found latest : List α} (low : ∀ x ∈ latest, height x ≤ rounds) (more : Nat) :
    spreadFrom next (rounds + more) found latest = spreadFrom next rounds found latest := by
  induction rounds generalizing found latest with
  | zero =>
    cases more with
    | zero => rfl
    | succ more =>
      rw [Nat.zero_add, spreadFrom_succ, if_pos (newFrom_eq_nil_of_falls falls low)]
      rfl
  | succ rounds ih =>
    rw [Nat.add_right_comm, spreadFrom_succ, spreadFrom_succ, ih]
    intro y new
    exact Nat.le_of_lt_succ (lt_of_mem_newFrom falls low new)

/-! ## Spreading with items left out -/

section Narrow
variable {narrow : α → List α} {keep : α → Bool} (good : α → Prop)
  (same : ∀ x, good x → narrow x = (next x).filter keep)
  (lost : ∀ x, keep x = false → ∀ y ∈ next x, keep y = false)
include same lost

theorem filter_newFrom (found latest : List α) (inside : ∀ x ∈ latest, keep x = true → good x) :
    (newFrom next found latest).filter keep =
      newFrom narrow (found.filter keep) (latest.filter keep) := by
  have barren : ∀ x ∈ latest, keep x = false → (next x).filter keep = [] := by
    intro x _ left
    refine List.filter_eq_nil_iff.2 fun y step => ?_
    simp [lost x left y step]
  have steps : (latest.flatMap next).filter keep = (latest.filter keep).flatMap narrow := by
    rw [List.filter_flatMap, ← flatMap_filter barren]
    refine List.flatMap_congr fun x mem => ?_
    obtain ⟨last, kept⟩ := List.mem_filter.1 mem
    exact (same x (inside x last kept)).symm
  rw [newFrom, newFrom, List.filter_comm, filter_distinct, steps]
  refine List.filter_congr fun y mem => ?_
  have kept : keep y = true := by
    rw [← steps, mem_distinct] at mem
    exact (List.mem_filter.1 mem).2
  simp [kept]

/-- Items that lead only to items that are left out can be left out in every round. -/
theorem filter_spreadFrom (closed : ∀ x, good x → ∀ y ∈ narrow x, good y) (rounds : Nat)
    (found latest : List α) (inside : ∀ x ∈ latest, keep x = true → good x) :
    (spreadFrom next rounds found latest).filter keep =
      spreadFrom narrow rounds (found.filter keep) (latest.filter keep) := by
  induction rounds generalizing found latest with
  | zero => rfl
  | succ rounds ih =>
    have new := filter_newFrom good same lost found latest inside
    have stays : ∀ y ∈ newFrom next found latest, keep y = true → good y := by
      intro y mem kept
      have mem : y ∈ newFrom narrow (found.filter keep) (latest.filter keep) := by
        rw [← new]
        exact List.mem_filter.2 ⟨mem, kept⟩
      obtain ⟨⟨x, last, step⟩, -⟩ := mem_newFrom.1 mem
      obtain ⟨last, kept⟩ := List.mem_filter.1 last
      exact closed x (inside x last kept) y step
    have further := ih (found ++ newFrom next found latest) _ stays
    rw [List.filter_append, new] at further
    rw [spreadFrom_succ, spreadFrom_succ, ← new]
    by_cases nothing : newFrom next found latest = []
    · rw [if_pos nothing, nothing, if_pos List.filter_nil]
    · rw [if_neg nothing, further, ← new]
      by_cases gone : (newFrom next found latest).filter keep = []
      · rw [if_pos gone, gone, List.append_nil]
        cases rounds <;> rfl
      · rw [if_neg gone]

end Narrow

/-! ## Sorting with items left out -/

section Sorting
variable {le : α → α → Bool} (trans : ∀ a b c, le a b → le b c → le a c)
  (total : ∀ a b, le a b || le b a)
include trans total

omit [DecidableEq α] in
/-- Sorting puts an item between those that come before it and the others. -/
theorem mergeSort_parts (a : α) (xs : List α) :
    (xs.mergeSort le).filter (fun b => !le a b) ++ (xs.mergeSort le).filter (le a) =
        xs.mergeSort le ∧
      (xs.mergeSort le).filter (fun b => !le a b) ++ a :: (xs.mergeSort le).filter (le a) =
        (a :: xs).mergeSort le := by
  obtain ⟨before, after, whole, rest, less⟩ := List.mergeSort_cons trans total a xs
  have sorted := List.pairwise_mergeSort trans total (a :: xs)
  rw [whole, List.pairwise_append, List.pairwise_cons] at sorted
  have more : ∀ b ∈ after, le a b = true := sorted.2.1.1
  have first : (before ++ after).filter (fun b => !le a b) = before := by
    rw [List.filter_append, List.filter_eq_self.2 less,
      List.filter_eq_nil_iff.2 fun b mem => by simp [more b mem], List.append_nil]
  have last : (before ++ after).filter (le a) = after := by
    rw [List.filter_append, List.filter_eq_self.2 more,
      List.filter_eq_nil_iff.2 fun b mem => by simpa using less b mem, List.nil_append]
  rw [rest, first, last]
  exact ⟨rfl, whole.symm⟩

omit [DecidableEq α] in
/-- Items can be left out before or after sorting. -/
theorem filter_mergeSort (keep : α → Bool) (xs : List α) :
    (xs.mergeSort le).filter keep = (xs.filter keep).mergeSort le := by
  induction xs with
  | nil => simp
  | cons a xs ih =>
    obtain ⟨rest, whole⟩ := mergeSort_parts trans total a xs
    rw [← whole, List.filter_append]
    by_cases kept : keep a = true
    · rw [List.filter_cons_of_pos kept, List.filter_cons_of_pos kept,
        ← (mergeSort_parts trans total a _).2, ← ih, List.filter_comm keep, List.filter_comm keep]
    · rw [List.filter_cons_of_neg kept, List.filter_cons_of_neg kept, ← ih, ← List.filter_append,
        rest]

end Sorting
end ZeroRun
