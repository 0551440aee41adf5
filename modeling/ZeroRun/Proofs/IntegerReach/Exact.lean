import Mathlib
import ZeroRun.Proofs.IntegerReach.Termination

/-! The integer check decides whether there is a walk that sums to zero. A solution without
components can be put in the order of a walk, and the rounds come to an end with such a solution or
with none. -/
namespace ZeroRun.IntegerReach

variable {sys : CounterSystem} {word : Word} {edges : List Indexed} {counts : List Int}

/-! ## A solution without components -/

theorem weigh_map_fst (live : edges ⊆ unknowns sys) (weight : Indexed → Int) :
    weigh sys weight (edges.map Prod.fst) = (edges.map weight).sum := by
  induction edges with
  | nil => exact weigh_nil weight
  | cons edge edges ih =>
    obtain ⟨here, later⟩ := List.cons_subset.1 live
    obtain ⟨⟨index, t⟩, known, rfl⟩ := List.mem_map.1 here
    rw [List.map_cons, weigh_cons known, ih later, List.map_cons, List.sum_cons]

theorem Trail.travels {a b : Ident} (trail : Trail a edges b) (live : edges ⊆ unknowns sys) :
    sys.Travels a (edges.map Prod.fst) b := by
  induction trail with
  | nil => exact .nil _
  | cons edge _ ih =>
    obtain ⟨here, later⟩ := List.cons_subset.1 live
    obtain ⟨⟨index, t⟩, known, rfl⟩ := List.mem_map.1 here
    exact .cons index t known (ih later)

/-- Transitions whose counts satisfy the flow equations balance between the initial and the final
state. -/
theorem balanced_of_holds (live : edges ⊆ unknowns sys)
    (holds : ∀ c ∈ constraints sys (unknowns sys), c.holds (tally sys edges) = true) :
    Balanced sys.initial sys.final edges := by
  intro state
  by_cases known : state ∈ sys.states
  · have member : flowEquation sys (unknowns sys) state ∈ constraints sys (unknowns sys) :=
      List.mem_append_left _ (List.mem_cons_of_mem _ (List.mem_map_of_mem known))
    have flow := Linear.holds_equal.1 (holds _ member)
    rw [tally, dot_countsOf, weigh_map_fst live] at flow
    refine flow.trans ?_
    simp only [eq_comm]
  · have none : ∀ t ∈ edges, t.2.target ≠ state ∧ t.2.source ≠ state := by
      intro t mem
      obtain ⟨⟨index, t⟩, here, rfl⟩ := List.mem_map.1 (live mem)
      have fits := CounterSystem.fits_of_live here
      exact ⟨fun same => known (same ▸ fits.2.1), fun same => known (same ▸ fits.1)⟩
    have ends : sys.final ≠ state ∧ sys.initial ≠ state :=
      ⟨fun same => known (same ▸ sys.final_mem), fun same => known (same ▸ sys.initial_mem)⟩
    have idle : surplus state edges = 0 := by
      refine List.sum_eq_zero fun x mem => ?_
      obtain ⟨t, inside, rfl⟩ := List.mem_map.1 mem
      simp [one, none t inside]
    simp [idle, one, ends]

/-- A walk whose counts satisfy the effect equations sums to zero. -/
theorem total_eq_of_holds (travels : sys.Travels sys.initial word sys.final)
    (holds : ∀ c ∈ constraints sys (unknowns sys), c.holds (countsOf sys word) = true) :
    sys.total word = sys.zero := by
  have length : (sys.total word).length = sys.dimension := travels.known.length_total
  refine List.eq_replicate_iff.2 ⟨length, fun x mem => ?_⟩
  obtain ⟨counter, small, rfl⟩ := List.mem_iff_getElem.1 mem
  have member : effectEquation (unknowns sys) counter ∈ constraints sys (unknowns sys) :=
    List.mem_append_right _ (List.mem_map_of_mem (List.mem_range.2 (length ▸ small)))
  have effect := Linear.holds_equal.1 (holds _ member)
  rw [dot_countsOf, weigh_effect travels] at effect
  rwa [List.getD_eq_getElem _ _ small] at effect

/-- Counts that satisfy the constraints and hang together are those of a walk that sums to zero. -/
theorem exists_zeroWalk (live : edges ⊆ unknowns sys)
    (holds : ∀ c ∈ constraints sys (unknowns sys), c.holds (tally sys edges) = true)
    (whole : componentsOf sys (takenBy (unknowns sys) (tally sys edges)) = []) :
    ∃ word, ZeroWalk sys word ∧ countsOf sys word = tally sys edges := by
  obtain ⟨order, same, trail⟩ := (balanced_of_holds live holds).exists_order fun edge mem => by
    have taken := (mem_takenBy live).2 mem
    obtain ⟨link, reach, known⟩ := mem_reachedStates.1 (source_mem_reachedStates whole taken)
    exact ⟨link, reach, fun step here => (mem_takenBy live).1 (known here)⟩
  have counted : tally sys order = tally sys edges :=
    List.map_congr_left fun p _ => by rw [(same.map Prod.fst).count_eq]
  have travels := trail.travels fun t mem => live (same.subset mem)
  rw [← counted] at holds ⊢
  refine ⟨order.map Prod.fst, ⟨?_, travels, total_eq_of_holds travels holds⟩, rfl⟩
  have some := Linear.holds_atLeast.1 (holds _ List.mem_cons_self)
  rw [tally, dot_countsOf, weigh_one travels] at some
  exact List.ne_nil_of_length_pos (by exact_mod_cast some)

/-! ## Rounds -/

variable {oracle : Linear.Oracle} {maxSteps : Option Int} {rounds steps : Nat}
  {memory : oracle.Memory} {clauses : List Linear.Clause} {forbidden : List Nat}

/-- A solution that the rounds end with is that of a walk. -/
theorem exists_zeroWalk_of_refine (exact : oracle.Exact) {image : Image}
    (status : (refine oracle sys (unknowns sys) maxSteps rounds memory clauses steps
      forbidden).status = .reachable image) :
    ∃ word, ZeroWalk sys word ∧ image = imageOf (unknowns sys) (countsOf sys word) := by
  induction rounds generalizing memory clauses steps forbidden with
  | zero => cases status
  | succ rounds ih =>
    rw [refine] at status
    split at status
    · cases status
    · cases status
    · rename_i counts after answered
      split at status
      · rename_i whole
        have model := exact.isModel _ _ _ _ _ (congrArg Prod.fst answered)
        obtain ⟨length, natural, holds, -⟩ := Linear.isModel_iff.1 model
        obtain ⟨edges, live, rfl⟩ := exists_counted nodup_unknowns length
          (Counters.isNonneg_iff.1 natural)
        obtain ⟨word, walk, counted⟩ := exists_zeroWalk live holds whole
        cases status
        exact ⟨word, walk, congrArg _ counted.symm⟩
      · split at status
        · cases status
        · exact ih status

/-! ## The check -/

theorem exists_zeroWalk_of_checkWith (exact : oracle.Exact) {image : Image}
    (status : (checkWith oracle sys maxSteps).status = .reachable image) :
    ∃ word, ZeroWalk sys word ∧ image = imageOf (unknowns sys) (countsOf sys word) := by
  rw [checkWith] at status
  split at status
  · cases status
  · exact exists_zeroWalk_of_refine exact status

theorem checkWith_decides (exact : oracle.Exact) (sys : CounterSystem) :
    (checkWith oracle sys none).status = .unreachable ∨
      ∃ image, (checkWith oracle sys none).status = .reachable image := by
  by_cases some : sys.liveTransitions = []
  · rw [checkWith_of_no_live some]
    exact .inl rfl
  · obtain ⟨final, ends⟩ := ends_checkWith exact some
    exact ends.decided exact

/-- The library's own oracle is exact, for every system. -/
theorem exact_oracleFor (sys : CounterSystem) : (oracleFor sys).Exact := by
  unfold oracleFor
  split
  · exact Linear.exact_solver
  · exact Linear.exact_solver.preferring _

open CounterSystem (looseLoop eq_of_travels_looseLoop downOrUp travels_downOrUp_iff)

theorem not_zeroWalk_looseLoop (word : Word) : ¬ ZeroWalk looseLoop word := by
  intro walk
  obtain rfl := eq_of_travels_looseLoop walk.travels
  exact absurd walk.balanced (by decide)

end ZeroRun.IntegerReach
