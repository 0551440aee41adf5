import Mathlib
import ZeroRun.IntegerReach.Check
import ZeroRun.Proofs.Effects
import ZeroRun.Proofs.Linear.Refutation
import ZeroRun.Proofs.Sequence

/-! The integer check refutes only systems without a run. The numbers of times that a walk takes
each live transition satisfy all constraints: a walk enters each state as often as it leaves it, its
two ends apart, and a walk that takes a whole component enters it from outside. So what an oracle
refutes has no such walk. -/
namespace ZeroRun.IntegerReach

variable {sys : CounterSystem} {a b : Ident} {word : Word}

/-! ## Counting transitions -/

theorem mem_unknowns {index : Nat} {t : Transition} :
    ((index : Int), t) ∈ unknowns sys ↔ (index, t) ∈ sys.liveTransitions := by
  simp [unknowns]

theorem nodup_unknowns : ((unknowns sys).map Prod.fst).Nodup := by
  simp only [unknowns, List.map_map]
  refine List.pairwise_map.2 (CounterSystem.pairwise_liveTransitions.imp fun less same => ?_)
  simp at same
  omega

/-- How often a word takes each live transition. -/
def countsOf (sys : CounterSystem) (word : Word) : List Int :=
  (unknowns sys).map fun p => (word.count p.1 : Int)

/-- The sum of a weight over the transitions that a word takes. -/
def weigh (sys : CounterSystem) (weight : Indexed → Int) (word : Word) : Int :=
  ((unknowns sys).map fun p => weight p * word.count p.1).sum

theorem dot_countsOf (weight : Indexed → Int) :
    Counters.dot ((unknowns sys).map weight) (countsOf sys word) = weigh sys weight word := by
  rw [weigh, List.sum_eq_foldr]
  simp [Counters.dot, countsOf, List.zipWith_map, List.zipWith_self]

theorem sum_indicator {live : List Indexed} (nodup : (live.map Prod.fst).Nodup) {p : Indexed}
    (mem : p ∈ live) (weight : Indexed → Int) :
    (live.map fun q => weight q * if p.1 = q.1 then 1 else 0).sum = weight p := by
  induction live with
  | nil => cases mem
  | cons q live ih =>
    obtain ⟨fresh, nodup⟩ := List.nodup_cons.1 nodup
    rw [List.map_cons, List.sum_cons]
    rcases List.mem_cons.1 mem with rfl | mem
    · have others : (live.map fun q => weight q * if p.1 = q.1 then 1 else 0).sum = 0 := by
        refine List.sum_eq_zero fun x inside => ?_
        obtain ⟨q, other, rfl⟩ := List.mem_map.1 inside
        have apart : p.1 ≠ q.1 := fun same => fresh (same ▸ List.mem_map_of_mem other)
        simp [apart]
      rw [others]
      simp
    · have apart : p.1 ≠ q.1 := fun same => fresh (same ▸ List.mem_map_of_mem mem)
      rw [ih nodup mem, if_neg apart]
      simp

theorem weigh_cons {index : Nat} {t : Transition} (live : (index, t) ∈ sys.liveTransitions)
    (weight : Indexed → Int) (word : Word) :
    weigh sys weight ((index : Int) :: word) = weight (index, t) + weigh sys weight word := by
  rw [← sum_indicator nodup_unknowns (mem_unknowns.2 live) weight, weigh, weigh,
    ← List.sum_map_add]
  refine congrArg List.sum (List.map_congr_left fun p _ => ?_)
  rw [List.count_cons]
  by_cases same : (index : Int) = p.1
  · simp [same]
    ring
  · simp [same]

theorem weigh_nil (weight : Indexed → Int) : weigh sys weight [] = 0 := by
  simp [weigh]

theorem weigh_index {p : Indexed} (mem : p ∈ unknowns sys) (word : Word) :
    weigh sys (fun q => one (q.1 = p.1)) word = word.count p.1 := by
  rw [← sum_indicator nodup_unknowns mem fun q => (word.count q.1 : Int), weigh]
  refine congrArg List.sum (List.map_congr_left fun q _ => ?_)
  by_cases same : q.1 = p.1
  · simp [one, same]
  · simp [one, same, Ne.symm same]

/-- A constraint on one transition is about how often the word takes it. -/
theorem holds_countConstraint {p : Indexed} (mem : p ∈ unknowns sys) (comparison : Comparison)
    (bound : Int) (word : Word) :
    (countConstraint (unknowns sys) p.1 comparison bound).holds (countsOf sys word) =
      comparison.holds (word.count p.1) bound := by
  rw [Constraint.holds, Constraint.evaluate, countConstraint, dot_countsOf, weigh_index mem]

/-! ## A walk satisfies the constraints -/

/-- As many transitions are taken as the word has letters. -/
theorem weigh_one (travels : sys.Travels a word b) : weigh sys (fun _ => 1) word = word.length := by
  induction travels with
  | nil => exact weigh_nil _
  | cons index t live _ ih =>
    rw [weigh_cons live, ih, List.length_cons]
    push_cast
    ring

/-- Arrivals and departures balance but for the two ends. -/
theorem weigh_flow (travels : sys.Travels a word b) (state : Ident) :
    weigh sys (fun p => one (p.2.target = state) - one (p.2.source = state)) word =
      one (b = state) - one (a = state) := by
  induction travels with
  | nil => rw [weigh_nil, Int.sub_self]
  | cons index t live _ ih =>
    rw [weigh_cons live, ih]
    ring

theorem weigh_effect (travels : sys.Travels a word b) (counter : Nat) :
    weigh sys (fun p => p.2.effect.getD counter 0) word = (sys.total word).getD counter 0 := by
  induction travels with
  | nil =>
    rw [weigh_nil]
    simp [CounterSystem.total, CounterSystem.effects, Counters.sumFrom, CounterSystem.zero,
      Counters.zero, List.getElem?_replicate]
    split <;> rfl
  | cons index t live rest ih =>
    have present := (CounterSystem.mem_liveTransitions.1 live).1
    have width : t.effect.length = (sys.total _).length :=
      (CounterSystem.fits_of_live live).2.2.1.trans rest.known.length_total.symm
    rw [weigh_cons live, ih, CounterSystem.total_cons present, Linear.getD_add width]

/-- A walk from the initial to the final state that sums to zero. -/
structure ZeroWalk (sys : CounterSystem) (word : Word) : Prop where
  ne_nil : word ≠ []
  travels : sys.Travels sys.initial word sys.final
  balanced : sys.total word = sys.zero

theorem ZeroWalk.holds_constraints (walk : ZeroWalk sys word) :
    ∀ c ∈ constraints sys (unknowns sys), c.holds (countsOf sys word) = true := by
  intro c mem
  rw [constraints, List.cons_append, List.mem_cons, List.mem_append] at mem
  rcases mem with rfl | mem | mem
  · refine Linear.holds_atLeast.2 ?_
    rw [dot_countsOf, weigh_one walk.travels]
    have := List.length_pos_of_ne_nil walk.ne_nil
    omega
  · obtain ⟨state, -, rfl⟩ := List.mem_map.1 mem
    refine Linear.holds_equal.2 ?_
    rw [dot_countsOf, weigh_flow walk.travels]
    simp only [eq_comm]
  · obtain ⟨counter, -, rfl⟩ := List.mem_map.1 mem
    refine Linear.holds_equal.2 ?_
    rw [dot_countsOf, weigh_effect walk.travels, walk.balanced]
    simp [CounterSystem.zero, Counters.zero, List.getElem?_replicate]
    split <;> rfl

/-! ## A walk satisfies the clauses -/

/-- A walk that gets into a set of states enters it from outside. -/
theorem exists_entry (states : List Ident) (travels : sys.Travels a word b) (outside : a ∉ states)
    (inside : b ∈ states) :
    ∃ index t, (index, t) ∈ sys.liveTransitions ∧ (index : Int) ∈ word ∧ t.source ∉ states ∧
      t.target ∈ states := by
  induction travels with
  | nil => exact absurd inside outside
  | cons index t live _ ih =>
    by_cases entered : t.target ∈ states
    · exact ⟨index, t, live, List.mem_cons_self, outside, entered⟩
    · obtain ⟨other, move, live, mem, source, target⟩ := ih entered inside
      exact ⟨other, move, live, List.mem_cons_of_mem _ mem, source, target⟩

/-- A part of the live transitions that is not empty and does not begin in the initial state. -/
structure Apart (sys : CounterSystem) (component : List Indexed) : Prop where
  ne_nil : component ≠ []
  live : ∀ t ∈ component, t ∈ unknowns sys
  away : ∀ t ∈ component, t.2.source ≠ sys.initial

theorem ZeroWalk.holds_connectionClause (walk : ZeroWalk sys word) {component : List Indexed}
    (apart : Apart sys component) :
    Linear.Clause.holds (connectionClause (unknowns sys) component) (countsOf sys word) = true := by
  rw [Linear.Clause.holds, List.any_eq_true]
  by_cases taken : ∀ p ∈ component, p.1 ∈ word
  · -- The walk takes a transition of the component, so it enters its sources before.
    obtain ⟨p, mem⟩ := List.exists_mem_of_ne_nil _ apart.ne_nil
    obtain ⟨⟨index, t⟩, live, rfl⟩ := List.mem_map.1 (apart.live p mem)
    obtain ⟨u, v, parts⟩ := List.append_of_mem (taken _ mem)
    obtain ⟨state, before, after⟩ := (parts ▸ walk.travels).split
    obtain ⟨rfl, -⟩ := (CounterSystem.Travels.cons_iff live).1 after
    have outside : sys.initial ∉ component.map fun p => p.2.source := by
      intro inside
      obtain ⟨q, mem, same⟩ := List.mem_map.1 inside
      exact apart.away q mem same
    obtain ⟨entry, move, live, used, source, target⟩ :=
      exists_entry _ before outside (List.mem_map.2 ⟨_, mem, rfl⟩)
    refine ⟨countConstraint (unknowns sys) (entry : Int) .atLeast 1, ?_, ?_⟩
    · refine List.mem_append_right _ (List.mem_map.2 ⟨((entry : Int), move), ?_, rfl⟩)
      refine List.mem_filter.2 ⟨mem_unknowns.2 live, ?_⟩
      rw [Bool.and_eq_true, decide_eq_true_eq, decide_eq_true_eq]
      exact ⟨target, source⟩
    · rw [holds_countConstraint (mem_unknowns.2 live)]
      have positive : 0 < word.count (entry : Int) :=
        List.count_pos_iff.2 (parts ▸ List.mem_append_left _ used)
      exact decide_eq_true (by exact_mod_cast positive)
  · push Not at taken
    obtain ⟨p, mem, untaken⟩ := taken
    refine ⟨countConstraint (unknowns sys) p.1 .atMost 0,
      List.mem_append_left _ (List.mem_map.2 ⟨_, mem, rfl⟩), ?_⟩
    rw [holds_countConstraint (apart.live p mem), List.count_eq_zero.2 untaken]
    rfl

/-! ## Components -/

theorem absorbPass_perm (inside outside : List Indexed) :
    ((absorbPass inside outside).1 ++ (absorbPass inside outside).2).Perm (inside ++ outside) := by
  induction outside generalizing inside with
  | nil => simp [absorbPass]
  | cons t outside ih =>
    rw [absorbPass]
    split
    · simpa using ih (inside ++ [t])
    · exact (List.perm_middle.trans ((ih inside).cons t)).trans List.perm_middle.symm

theorem absorbPass_subset (inside outside : List Indexed) :
    inside ⊆ (absorbPass inside outside).1 ∧
      (absorbPass inside outside).2.Sublist outside := by
  induction outside generalizing inside with
  | nil => simp [absorbPass]
  | cons t outside ih =>
    rw [absorbPass]
    split
    · obtain ⟨grows, left⟩ := ih (inside ++ [t])
      exact ⟨fun u mem => grows (List.mem_append_left _ mem), left.cons t⟩
    · exact ⟨(ih inside).1, (ih inside).2.cons_cons t⟩

/-- The transitions are moved inside, and none is lost. -/
theorem absorb_perm (rounds : Nat) (inside outside : List Indexed) :
    ((absorb rounds inside outside).1 ++ (absorb rounds inside outside).2).Perm
      (inside ++ outside) := by
  induction rounds generalizing inside outside with
  | zero => exact .refl _
  | succ rounds ih =>
    rw [absorb]
    split
    · exact absorbPass_perm inside outside
    · exact (ih _ _).trans (absorbPass_perm inside outside)

theorem absorb_subset (rounds : Nat) (inside outside : List Indexed) :
    inside ⊆ (absorb rounds inside outside).1 ∧
      (absorb rounds inside outside).1 ⊆ inside ++ outside ∧
      (absorb rounds inside outside).2 ⊆ outside := by
  have among : (absorb rounds inside outside).1 ⊆ inside ++ outside := fun t mem =>
    (absorb_perm rounds inside outside).subset (List.mem_append_left _ mem)
  suffices both : inside ⊆ (absorb rounds inside outside).1 ∧
      (absorb rounds inside outside).2 ⊆ outside from ⟨both.1, among, both.2⟩
  clear among
  induction rounds generalizing inside outside with
  | zero => simp [absorb]
  | succ rounds ih =>
    obtain ⟨grows, left⟩ := absorbPass_subset inside outside
    rw [absorb]
    split
    · exact ⟨grows, left.subset⟩
    · obtain ⟨further, fewer⟩ := ih (absorbPass inside outside).1 (absorbPass inside outside).2
      exact ⟨List.Subset.trans grows further, List.Subset.trans fewer left.subset⟩

theorem subset_of_mem_splitComponents {count : Nat} {loose component : List Indexed}
    (mem : component ∈ splitComponents count loose) : component ≠ [] ∧ component ⊆ loose := by
  induction count generalizing loose with
  | zero => simp [splitComponents] at mem
  | succ count ih =>
    cases loose with
    | nil => simp [splitComponents] at mem
    | cons first rest =>
      obtain ⟨grows, among, left⟩ := absorb_subset rest.length [first] rest
      rcases List.mem_cons.1 mem with rfl | mem
      · exact ⟨List.ne_nil_of_mem (grows List.mem_cons_self), among⟩
      · obtain ⟨ne, subset⟩ := ih mem
        exact ⟨ne, fun t inside => List.mem_cons_of_mem _ (left (subset inside))⟩

theorem apart_of_mem_componentsOf {counts : List Int} {component : List Indexed}
    (mem : component ∈ componentsOf sys (takenBy (unknowns sys) counts)) : Apart sys component := by
  obtain ⟨ne, subset⟩ := subset_of_mem_splitComponents mem
  have detachedLive : ∀ t ∈ component,
      t ∈ takenBy (unknowns sys) counts ∧
        t.2.source ∉ reachedStates sys (takenBy (unknowns sys) counts) := by
    intro t inside
    have loose := List.mem_filter.1 (subset inside)
    exact ⟨loose.1, of_decide_eq_true loose.2⟩
  refine ⟨ne, fun t inside => ?_, fun t inside same => ?_⟩
  · obtain ⟨⟨p, n⟩, entry, kept⟩ := List.mem_filterMap.1 (detachedLive t inside).1
    simp only [Option.ite_none_right_eq_some, Option.some.injEq] at kept
    obtain ⟨-, rfl⟩ := kept
    exact (List.of_mem_zip entry).1
  · refine (detachedLive t inside).2 (same ▸ ?_)
    exact subset_spreadFrom _ _ _ List.mem_cons_self

/-! ## The check -/

/-- While walks that sum to zero satisfy all clauses, a refutation means that there is none. -/
theorem not_zeroWalk_of_refine {oracle : Linear.Oracle} {maxSteps : Option Int} {rounds : Nat}
    {memory : oracle.Memory} {clauses : List Linear.Clause} {steps : Nat} {forbidden : List Nat}
    (refuted : (refine oracle sys (unknowns sys) maxSteps rounds memory clauses steps
      forbidden).status = .unreachable)
    (satisfied : ∀ word, ZeroWalk sys word →
      ∀ clause ∈ clauses, Linear.Clause.holds clause (countsOf sys word) = true) :
    ¬ ZeroWalk sys word := by
  induction rounds generalizing memory clauses steps forbidden with
  | zero => cases refuted
  | succ rounds ih =>
    rw [refine] at refuted
    split at refuted
    · rename_i answered
      intro walk
      have none := oracle.sound memory (unknowns sys).length (constraints sys (unknowns sys))
        clauses (by rw [answered]) (countsOf sys word)
      rw [Bool.eq_false_iff] at none
      refine none (Linear.isModel_iff.2
        ⟨by simp [countsOf], ?_, walk.holds_constraints, satisfied word walk⟩)
      refine Counters.isNonneg_iff.2 fun x mem => ?_
      obtain ⟨p, -, rfl⟩ := List.mem_map.1 mem
      exact Int.natCast_nonneg _
    · cases refuted
    · split at refuted
      · cases refuted
      · rename_i counts _ _ components _
        split at refuted
        · cases refuted
        · refine ih refuted fun word walk clause mem => ?_
          rcases List.mem_append.1 mem with old | new
          · exact satisfied word walk clause old
          · obtain ⟨component, inside, rfl⟩ := List.mem_map.1 new
            exact walk.holds_connectionClause (apart_of_mem_componentsOf inside)

/-- A system that the check refutes has no walk that sums to zero. -/
theorem not_zeroWalk_of_checkWith {oracle : Linear.Oracle} {maxSteps : Option Int}
    (refuted : (checkWith oracle sys maxSteps).status = .unreachable) : ¬ ZeroWalk sys word := by
  intro walk
  rw [checkWith] at refuted
  by_cases nothing : unknowns sys = []
  · obtain ⟨letter, mem⟩ := List.exists_mem_of_ne_nil _ walk.ne_nil
    obtain ⟨index, t, -, live⟩ := walk.travels.exists_live letter mem
    have known := mem_unknowns.2 live
    rw [nothing] at known
    cases known
  · rw [if_neg (by simpa using nothing)] at refuted
    exact not_zeroWalk_of_refine refuted (by simp) walk

/-- A system that the check refutes has no run. -/
theorem not_isRun_of_refutes {oracle : Linear.Oracle} {maxSteps : Option Int}
    (refuted : (checkWith oracle sys maxSteps).refutes = true) : ¬ sys.IsRun word := by
  intro run
  have walk : ZeroWalk sys word := ⟨run.1, run.travels, run.total_eq⟩
  exact not_zeroWalk_of_checkWith (of_decide_eq_true refuted) walk

end ZeroRun.IntegerReach
