import Mathlib
import ZeroRun.Proofs.IntegerReach.Components
import ZeroRun.Proofs.Linear.Exact

/-! The integer check comes to an end, whichever solutions it is given. A solution that falls into
components violates the clause of each of them, and all later solutions satisfy these clauses. So no
set of transitions is a component twice, and there are fewer rounds than there are sets of live
transitions. -/
namespace ZeroRun.IntegerReach

variable {sys : CounterSystem} {edges : List Indexed} {counts : List Int}

/-! ## Counts as transitions -/

/-- How often each live transition is among the given ones. -/
def tally (sys : CounterSystem) (edges : List Indexed) : List Int :=
  countsOf sys (edges.map Prod.fst)

/-- Counts are those of a list of transitions. -/
theorem exists_counted {live : List Indexed} (nodup : (live.map Prod.fst).Nodup)
    (length : counts.length = live.length) (natural : ∀ n ∈ counts, 0 ≤ n) :
    ∃ edges, edges ⊆ live ∧
      (live.map fun p => ((edges.map Prod.fst).count p.1 : Int)) = counts := by
  induction live generalizing counts with
  | nil => exact ⟨[], List.nil_subset _, (List.length_eq_zero_iff.1 length).symm⟩
  | cons p live ih =>
    obtain ⟨n, counts, rfl⟩ := List.exists_cons_of_length_eq_add_one length
    obtain ⟨fresh, nodup⟩ := List.nodup_cons.1 nodup
    obtain ⟨edges, inside, counted⟩ :=
      ih nodup (Nat.succ.inj length) fun m mem => natural m (List.mem_cons_of_mem _ mem)
    refine ⟨List.replicate n.toNat p ++ edges, ?_, ?_⟩
    · refine List.append_subset.2 ⟨fun e mem => ?_, fun e mem => ?_⟩
      · exact List.eq_of_mem_replicate mem ▸ List.mem_cons_self
      · exact List.mem_cons_of_mem _ (inside mem)
    · have own : (edges.map Prod.fst).count p.1 = 0 :=
        List.count_eq_zero.2 fun mem => fresh (List.map_subset _ inside mem)
      have others : ∀ q ∈ live, p.1 ≠ q.1 := fun q mem same =>
        fresh (same ▸ List.mem_map_of_mem mem)
      rw [List.map_cons, ← counted]
      congr 1
      · simp [own, natural n List.mem_cons_self]
      · refine List.map_congr_left fun q mem => ?_
        simp [List.count_replicate, others q mem]

theorem mem_takenBy_map (live : List Indexed) (count : Indexed → Int) {t : Indexed} :
    t ∈ takenBy live (live.map count) ↔ t ∈ live ∧ 0 < count t := by
  induction live with
  | nil => simp [takenBy]
  | cons p live ih =>
    unfold takenBy at ih ⊢
    rw [List.map_cons, List.zip_cons_cons, List.filterMap_cons]
    by_cases positive : 0 < count p
    · simp only [positive, if_true, List.mem_cons, ih]
      grind
    · simp only [positive, if_false, List.mem_cons, ih]
      grind

/-- The transitions that are taken at least once. -/
theorem mem_takenBy (live : edges ⊆ unknowns sys) {t : Indexed} :
    t ∈ takenBy (unknowns sys) (tally sys edges) ↔ t ∈ edges := by
  rw [tally, countsOf, mem_takenBy_map, Int.natCast_pos, List.count_pos_iff]
  constructor
  · rintro ⟨known, letter⟩
    obtain ⟨e, mem, same⟩ := List.mem_map.1 letter
    rwa [← List.inj_on_of_nodup_map nodup_unknowns (live mem) known same]
  · exact fun mem => ⟨live mem, List.mem_map_of_mem mem⟩

/-! ## A solution with components -/

/-- Counts violate the clauses of their components. -/
theorem not_holds_connectionClause (live : edges ⊆ unknowns sys) {component other : List Indexed}
    (found : component ∈ componentsOf sys (takenBy (unknowns sys) (tally sys edges)))
    (same : ∀ t, t ∈ other ↔ t ∈ component) :
    ¬ Linear.Clause.holds (connectionClause (unknowns sys) other) (tally sys edges) = true := by
  have inside := (subset_of_mem_splitComponents found).2
  intro holds
  obtain ⟨c, choice, holds⟩ := List.any_eq_true.1 holds
  rcases List.mem_append.1 choice with left | right
  · obtain ⟨t, mem, rfl⟩ := List.mem_map.1 left
    have taken := (mem_takenBy live).1 (mem_detached.1 (inside ((same t).1 mem))).1
    rw [tally, holds_countConstraint (live taken)] at holds
    have positive : 0 < (edges.map Prod.fst).count t.1 :=
      List.count_pos_iff.2 (List.mem_map_of_mem taken)
    have none := of_decide_eq_true holds
    omega
  · obtain ⟨t, mem, rfl⟩ := List.mem_map.1 right
    obtain ⟨known, crosses⟩ := List.mem_filter.1 mem
    rw [Bool.and_eq_true, decide_eq_true_eq, decide_eq_true_eq] at crosses
    obtain ⟨target, source⟩ := crosses
    rw [tally, holds_countConstraint known] at holds
    have positive := of_decide_eq_true holds
    have taken : t ∈ takenBy (unknowns sys) (tally sys edges) :=
      (mem_takenBy_map _ _).2 ⟨known, positive⟩
    have sources : ∀ state, (state ∈ other.map fun e => e.2.source) ↔
        state ∈ component.map fun e => e.2.source := by
      simp [List.mem_map, same]
    rw [sources] at source target
    exact source (source_mem_of_target_mem found taken target)

/-! ## Picked solutions -/

variable {picks final : List (List Int)} {x : List Int} {component other : List Indexed}

/-- The components that a solution falls into. -/
def componentsAt (sys : CounterSystem) (x : List Int) : List (List Indexed) :=
  componentsOf sys (takenBy (unknowns sys) x)

/-- The clauses that forbid the components of the solutions picked so far. -/
def clausesAfter (sys : CounterSystem) (picks : List (List Int)) : List Linear.Clause :=
  (picks.flatMap (componentsAt sys)).map (connectionClause (unknowns sys))

/-- A solution of all constraints and of the clauses so far. -/
def Solves (sys : CounterSystem) (picks : List (List Int)) (x : List Int) : Prop :=
  Linear.isModel (unknowns sys).length (constraints sys (unknowns sys)) (clausesAfter sys picks) x =
    true

instance : Decidable (Solves sys picks x) :=
  inferInstanceAs (Decidable (_ = true))

/-- Solutions that were picked one after another in any way. Each falls into components and
satisfies the clauses of all that were picked before. -/
inductive Picked (sys : CounterSystem) : List (List Int) → Prop where
  | start : Picked sys []
  | further {picks : List (List Int)} {x : List Int} (before : Picked sys picks)
      (solves : Solves sys picks x) (apart : componentsAt sys x ≠ []) : Picked sys (picks ++ [x])

theorem clausesAfter_concat (sys : CounterSystem) (picks : List (List Int)) (x : List Int) :
    clausesAfter sys (picks ++ [x]) =
      clausesAfter sys picks ++ (componentsAt sys x).map (connectionClause (unknowns sys)) := by
  simp [clausesAfter]

/-- A solution violates the clause of each of its components, in whatever order it is written. -/
theorem Solves.not_holds (solves : Solves sys picks x) (found : component ∈ componentsAt sys x)
    (same : other.toFinset = component.toFinset) :
    Linear.Clause.holds (connectionClause (unknowns sys) other) x = false := by
  obtain ⟨length, natural, -, -⟩ := Linear.isModel_iff.1 solves
  obtain ⟨edges, live, rfl⟩ := exists_counted nodup_unknowns length
    (Counters.isNonneg_iff.1 natural)
  rw [Bool.eq_false_iff]
  apply not_holds_connectionClause live found
  intro t
  rw [← List.mem_toFinset, same, List.mem_toFinset]

/-- The components of one solution are different sets. -/
theorem nodup_componentsAt (sys : CounterSystem) (x : List Int) :
    ((componentsAt sys x).map List.toFinset).Nodup := by
  refine List.pairwise_map.2 ((pairwise_splitComponents _ _).imp_of_mem ?_)
  intro c d first _ apart same
  obtain ⟨t, mem⟩ := List.exists_mem_of_ne_nil c (subset_of_mem_splitComponents first).1
  apply apart t mem
  rw [← List.mem_toFinset, ← same, List.mem_toFinset]
  exact mem

/-- No set of transitions is a component twice. -/
theorem Picked.nodup (picked : Picked sys picks) :
    ((picks.flatMap (componentsAt sys)).map List.toFinset).Nodup := by
  induction picked with
  | start => exact List.nodup_nil
  | @further picks x before solves apart ih =>
    rw [List.flatMap_append, List.map_append, List.flatMap_singleton]
    apply ih.append (nodup_componentsAt sys x)
    intro cut old new
    obtain ⟨other, earlier, rfl⟩ := List.mem_map.1 old
    obtain ⟨component, found, same⟩ := List.mem_map.1 new
    -- The earlier component left a clause, which the solution satisfies.
    have clause := (Linear.isModel_iff.1 solves).2.2.2 _ (List.mem_map_of_mem earlier)
    rw [solves.not_holds found same.symm] at clause
    cases clause

/-- Every pick violates the clauses of its components. -/
theorem Picked.not_holds (picked : Picked sys picks) :
    ∀ x ∈ picks, ∀ component ∈ componentsAt sys x,
      Linear.Clause.holds (connectionClause (unknowns sys) component) x = false := by
  induction picked with
  | start => exact fun x mem => absurd mem List.not_mem_nil
  | further before solves apart ih =>
    intro x mem component found
    rcases List.mem_append.1 mem with old | new
    · exact ih x old component found
    · rw [List.mem_singleton.1 new] at found ⊢
      exact solves.not_holds found rfl

/-- Every pick comes with a component of its own. -/
theorem Picked.length_le (picked : Picked sys picks) :
    picks.length ≤ (picks.flatMap (componentsAt sys)).length := by
  induction picked with
  | start => exact le_rfl
  | further before solves apart ih =>
    have some := List.length_pos_of_ne_nil apart
    rw [List.flatMap_append, List.length_append, List.length_append, List.flatMap_singleton,
      List.length_singleton]
    omega

/-- There are fewer picks than sets of live transitions, since no component is empty. -/
theorem Picked.length_lt (picked : Picked sys picks) :
    picks.length < 2 ^ (unknowns sys).length := by
  have within : ∀ cut ∈ (picks.flatMap (componentsAt sys)).map List.toFinset,
      cut ∈ (unknowns sys).toFinset.powerset.erase ∅ := by
    intro cut mem
    obtain ⟨component, found, rfl⟩ := List.mem_map.1 mem
    obtain ⟨x, -, found⟩ := List.mem_flatMap.1 found
    have apart := apart_of_mem_componentsOf found
    refine Finset.mem_erase.2 ⟨?_, Finset.mem_powerset.2 fun t inside => ?_⟩
    · rw [ne_eq, List.toFinset_eq_empty_iff]
      exact apart.ne_nil
    · exact List.mem_toFinset.2 (apart.live t (List.mem_toFinset.1 inside))
  calc picks.length ≤ (picks.flatMap (componentsAt sys)).length := picked.length_le
    _ = ((picks.flatMap (componentsAt sys)).map List.toFinset).toFinset.card := by
      rw [List.toFinset_card_of_nodup picked.nodup, List.length_map]
    _ ≤ ((unknowns sys).toFinset.powerset.erase ∅).card :=
      Finset.card_le_card fun cut mem => within cut (List.mem_toFinset.1 mem)
    _ < (unknowns sys).toFinset.powerset.card :=
      Finset.card_erase_lt_of_mem (Finset.empty_mem_powerset _)
    _ = 2 ^ (unknowns sys).toFinset.card := Finset.card_powerset _
    _ ≤ 2 ^ (unknowns sys).length :=
      Nat.pow_le_pow_right Nat.two_pos (List.toFinset_card_le _)

/-! ## The rounds without a cap -/

variable {oracle : Linear.Oracle} {memory : oracle.Memory} {result : Result} {rounds : Nat}

/-- What the oracle answers after some picks. -/
def answerAfter (oracle : Linear.Oracle) (sys : CounterSystem) (memory : oracle.Memory)
    (picks : List (List Int)) : Linear.Answer × oracle.Memory :=
  oracle.ask memory (unknowns sys).length (constraints sys (unknowns sys)) (clausesAfter sys picks)

/-- How many components each pick has. -/
def forbiddenAfter (sys : CounterSystem) (picks : List (List Int)) : List Nat :=
  picks.map fun x => (componentsAt sys x).length

/-- Round after round, with no limit and no cap on their number, from some picks on to the last one:
the oracle is asked until it answers with a solution that hangs together, or with none. -/
inductive Ends (oracle : Linear.Oracle) (sys : CounterSystem) :
    oracle.Memory → (picks final : List (List Int)) → Result → Prop where
  | refuted {memory after : oracle.Memory} {picks : List (List Int)}
      (answer : answerAfter oracle sys memory picks = (.refuted, after)) :
      Ends oracle sys memory picks picks
        ⟨.unreachable, picks.length + 1, forbiddenAfter sys picks⟩
  | unclear {memory after : oracle.Memory} {picks : List (List Int)} {reason : String}
      (answer : answerAfter oracle sys memory picks = (.unknown reason, after)) :
      Ends oracle sys memory picks picks
        ⟨.unclear reason, picks.length + 1, forbiddenAfter sys picks⟩
  | whole {memory after : oracle.Memory} {picks : List (List Int)} {x : List Int}
      (answer : answerAfter oracle sys memory picks = (.model x, after))
      (together : componentsAt sys x = []) :
      Ends oracle sys memory picks picks
        ⟨.reachable (imageOf (unknowns sys) x), picks.length + 1, forbiddenAfter sys picks⟩
  | onward {memory after : oracle.Memory} {picks final : List (List Int)} {x : List Int}
      {result : Result} (answer : answerAfter oracle sys memory picks = (.model x, after))
      (apart : componentsAt sys x ≠ [])
      (rest : Ends oracle sys after (picks ++ [x]) final result) :
      Ends oracle sys memory picks final result

/-- The rounds end in one way only. -/
theorem Ends.unique {otherFinal : List (List Int)} {otherResult : Result}
    (ends : Ends oracle sys memory picks final result)
    (again : Ends oracle sys memory picks otherFinal otherResult) :
    otherFinal = final ∧ otherResult = result := by
  induction ends with
  | refuted answer =>
    cases again with
    | refuted => exact ⟨rfl, rfl⟩
    | unclear different | whole different | onward different =>
      rw [answer] at different
      cases different
  | unclear answer =>
    cases again with
    | unclear same =>
      rw [answer] at same
      cases same
      exact ⟨rfl, rfl⟩
    | refuted different | whole different | onward different =>
      rw [answer] at different
      cases different
  | whole answer together =>
    cases again with
    | whole same =>
      rw [answer] at same
      cases same
      exact ⟨rfl, rfl⟩
    | onward same apart =>
      rw [answer] at same
      cases same
      exact absurd together apart
    | refuted different | unclear different =>
      rw [answer] at different
      cases different
  | onward answer apart _ ih =>
    cases again with
    | onward same _ rest =>
      rw [answer] at same
      cases same
      exact ih rest
    | whole same together =>
      rw [answer] at same
      cases same
      exact absurd together apart
    | refuted different | unclear different =>
      rw [answer] at different
      cases different

theorem Ends.steps_eq (ends : Ends oracle sys memory picks final result) :
    result.steps = final.length + 1 := by
  induction ends with
  | refuted | unclear | whole => rfl
  | onward _ _ _ ih => exact ih

/-- An exact oracle picks solutions. -/
theorem Ends.picked (ends : Ends oracle sys memory picks final result) (exact : oracle.Exact)
    (before : Picked sys picks) : Picked sys final := by
  induction ends with
  | refuted | unclear | whole => exact before
  | onward answer apart _ ih =>
    apply ih
    exact before.further (exact.isModel _ _ _ _ _ (congrArg Prod.fst answer)) apart

/-- An exact oracle never leaves the question open. -/
theorem Ends.decided (ends : Ends oracle sys memory picks final result) (exact : oracle.Exact) :
    result.status = .unreachable ∨ ∃ image, result.status = .reachable image := by
  induction ends with
  | refuted => exact .inl rfl
  | unclear answer => exact absurd (congrArg Prod.fst answer) (exact.answers _ _ _ _ _)
  | whole => exact .inr ⟨_, rfl⟩
  | onward _ _ _ ih => exact ih

/-- With as many rounds as there are sets of live transitions, the cap is never reached. -/
theorem ends_refine (exact : oracle.Exact) (picked : Picked sys picks)
    (enough : 2 ^ (unknowns sys).length ≤ picks.length + rounds) :
    ∃ final, Ends oracle sys memory picks final
      (refine oracle sys (unknowns sys) none rounds memory (clausesAfter sys picks) picks.length
        (forbiddenAfter sys picks)) := by
  induction rounds generalizing memory picks with
  | zero =>
    have few := picked.length_lt
    omega
  | succ rounds ih =>
    rw [refine]
    split
    · rename_i answer
      exact ⟨picks, .refuted answer⟩
    · rename_i answer
      exact ⟨picks, .unclear answer⟩
    · rename_i x after answer
      split
      · rename_i together
        exact ⟨picks, .whole answer together⟩
      · rename_i apart
        have solves : Solves sys picks x := exact.isModel _ _ _ _ _ (congrArg Prod.fst answer)
        have left : 2 ^ (unknowns sys).length ≤ (picks ++ [x]).length + rounds := by
          rw [List.length_append, List.length_singleton]
          omega
        obtain ⟨final, ends⟩ := ih (picked.further solves apart) left
        rw [clausesAfter_concat, forbiddenAfter, List.map_append, List.length_append] at ends
        rw [if_neg (by simp [atLimit])]
        exact ⟨final, .onward answer apart ends⟩

/-! ## The check -/

theorem ends_checkWith (exact : oracle.Exact) (some : sys.liveTransitions ≠ []) :
    ∃ final, Ends oracle sys oracle.blank [] final (checkWith oracle sys none) := by
  have live : (unknowns sys).isEmpty = false := by
    simpa [unknowns] using some
  rw [checkWith, live]
  apply ends_refine exact .start
  rw [List.length_nil, Nat.zero_add]
  exact Nat.le_succ _

theorem checkWith_of_no_live (none : sys.liveTransitions = []) (maxSteps : Option Int) :
    checkWith oracle sys maxSteps = { status := .unreachable } := by
  rw [checkWith, unknowns, none]
  rfl

/-- The check ends, whichever solutions an exact oracle picks, and no cap on the number of rounds
decides how. Solutions that are picked one after another in any way violate the clauses of their
components, no two of these are the same set of transitions, and there are fewer picks than there
are sets of live transitions. -/
theorem checkWith_terminates (oracle : Linear.Oracle) (exact : oracle.Exact) (sys : CounterSystem) :
    (checkWith oracle sys none).steps ≤ 2 ^ sys.liveTransitions.length ∧
      (sys.liveTransitions ≠ [] → ∃ picks, Picked sys picks ∧
        ∀ final result, Ends oracle sys oracle.blank [] final result ↔
          final = picks ∧ result = checkWith oracle sys none) ∧
      ∀ picks, Picked sys picks →
        (∀ x ∈ picks, ∀ component ∈ componentsAt sys x,
          Linear.Clause.holds (connectionClause (unknowns sys) component) x = false) ∧
        ((picks.flatMap (componentsAt sys)).map List.toFinset).Nodup ∧
        picks.length < 2 ^ sys.liveTransitions.length := by
  have size : (unknowns sys).length = sys.liveTransitions.length := List.length_map _
  refine ⟨?_, fun some => ?_, fun picks picked => ⟨picked.not_holds, picked.nodup, ?_⟩⟩
  · by_cases some : sys.liveTransitions = []
    · rw [checkWith_of_no_live some]
      exact Nat.zero_le _
    · obtain ⟨picks, ends⟩ := ends_checkWith exact some
      rw [ends.steps_eq, ← size]
      exact (ends.picked exact .start).length_lt
  · obtain ⟨picks, ends⟩ := ends_checkWith exact some
    refine ⟨picks, ends.picked exact .start, fun final result => ⟨ends.unique, ?_⟩⟩
    rintro ⟨rfl, rfl⟩
    exact ends
  · rw [← size]
    exact picked.length_lt

open CounterSystem (looseLoop)

/-- With the loop the counts add up, but the loop hangs apart. This may be the first pick, and
whatever the picks are, there are at most eight rounds. -/
theorem checkWith_terminates_looseLoop :
    Picked looseLoop [[1, 1, 0]] ∧
      ((componentsAt looseLoop [1, 1, 0]).map (·.map Prod.fst)) = [[1]] ∧
      (checkWith Linear.solver looseLoop none).steps ≤ 8 ∧
      ∃ picks, Ends Linear.solver looseLoop Linear.solver.blank [] picks
        (checkWith Linear.solver looseLoop none) := by
  have picked : Picked looseLoop ([] ++ [[1, 1, 0]]) := .further .start (by decide) (by decide)
  obtain ⟨few, ends, -⟩ := checkWith_terminates Linear.solver Linear.exact_solver looseLoop
  obtain ⟨picks, -, same⟩ := ends (by decide)
  exact ⟨picked, by decide, few, picks, (same _ _).2 ⟨rfl, rfl⟩⟩

end ZeroRun.IntegerReach
