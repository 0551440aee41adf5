import Mathlib
import ZeroRun.Proofs.LiveWalk
import ZeroRun.Proofs.Linear.Exact

/-! Dead transitions. The constraints that a transition puts on the counters describe exactly the
vectors from which it fires, and without a guard there is always one. So a system that is built
with an oracle that decides conjunctions of constraints takes exactly those transitions for dead
that fire nowhere. -/
namespace ZeroRun

/-- The oracle decides conjunctions of constraints: it refutes those that no natural numbers
satisfy. -/
def Linear.Oracle.DecidesConjunctions (oracle : Linear.Oracle) : Prop :=
  ∀ n constraints, (∀ x, Linear.isModel n constraints [] x = false) →
    oracle.refutes n constraints = true

theorem Linear.Oracle.Exact.decidesConjunctions {oracle : Linear.Oracle} (exact : oracle.Exact) :
    oracle.DecidesConjunctions :=
  fun _ _ none => exact.refutes none

/-! ## Where a transition fires -/

namespace Transition
variable {t : Transition} {oracle : Linear.Oracle}

/-- Without a guard, a transition fires as soon as the counters make up for what it takes. -/
theorem exists_canFire_of_isTrivial (free : t.guard.isTrivial = true) :
    ∃ counters, t.CanFire counters := by
  refine ⟨t.effect.map (max 0 <| - ·), List.length_map _, ?_, ?_, ?_⟩
  · simp [Counters.isNonneg]
  · apply Counters.isNonneg_iff.2
    intro x mem
    obtain ⟨k, inside, rfl⟩ := List.mem_iff_getElem.1 mem
    simp only [Counters.add, List.getElem_zipWith, List.getElem_map]
    omega
  · rw [Guard.holds, List.isEmpty_iff.1 free]
    rfl

/-- An oracle that decides conjunctions takes exactly those transitions for live that fire
somewhere. -/
theorem isLive_iff (decides : oracle.DecidesConjunctions) :
    t.isLive oracle = true ↔ ∃ counters, t.CanFire counters := by
  constructor
  · intro live
    rw [isLive, Bool.or_eq_true, Bool.not_eq_true'] at live
    rcases live with free | unrefuted
    · exact exists_canFire_of_isTrivial free
    · by_contra nowhere
      -- A vector that satisfies the constraints would be one from which the transition fires.
      have none : ∀ x, Linear.isModel t.effect.length t.firingConstraints [] x = false := by
        intro x
        rw [← Bool.not_eq_true, isModel_firingConstraints_iff]
        exact fun fires => nowhere ⟨x, fires⟩
      rw [decides _ _ none] at unrefuted
      cases unrefuted
  · rintro ⟨counters, fires⟩
    by_contra dead
    exact not_canFire_of_isLive (Bool.eq_false_iff.2 dead) counters fires

end Transition

/-! ## The transitions of a system -/

namespace CounterSystem
variable {sys : CounterSystem} {draft : SystemDraft} {oracle : Linear.Oracle} {index : Nat}

theorem live_of_build (built : build draft oracle = .ok sys) :
    sys.live = sys.transitions.map (·.isLive oracle) := by
  unfold build at built
  split at built
  · cases built
  · dsimp only at built
    split at built
    · split at built
      · split at built
        · cases built
        · cases built
          rfl
      · cases built
    · cases built

theorem mem_deadIndices :
    index ∈ sys.deadIndices ↔
      ∃ t, sys.transitions[index]? = some t ∧ sys.live[index]? = some false := by
  rw [deadIndices, List.mem_filter, List.mem_range, Bool.not_eq_true', isLive,
    List.getD_eq_getElem?_getD]
  constructor
  · rintro ⟨inside, dead⟩
    have known : index < sys.live.length := by rwa [sys.live_length]
    rw [List.getElem?_eq_getElem known] at dead ⊢
    exact ⟨_, List.getElem?_eq_getElem inside, congrArg some dead⟩
  · rintro ⟨t, present, dead⟩
    rw [dead]
    exact ⟨(List.getElem?_eq_some_iff.1 present).1, rfl⟩

/-- A transition is live or dead, and not both. -/
theorem mem_liveTransitions_iff_not_dead {t : Transition}
    (present : sys.transitions[index]? = some t) :
    (index, t) ∈ sys.liveTransitions ↔ index ∉ sys.deadIndices := by
  have known : index < sys.live.length := by
    rw [sys.live_length]
    exact (List.getElem?_eq_some_iff.1 present).1
  rw [mem_liveTransitions, mem_deadIndices, List.getElem?_eq_getElem known]
  cases sys.live[index] <;> simp [present]

theorem mem_outgoing {state : Ident} :
    index ∈ sys.outgoing state ↔
      ∃ t, sys.transitions[index]? = some t ∧ t.source = state ∧ index ∉ sys.deadIndices := by
  simp only [outgoing, List.mem_map, List.mem_filter, decide_eq_true_eq, Prod.exists]
  constructor
  · rintro ⟨_, t, ⟨live, leaves⟩, rfl⟩
    have present := (mem_liveTransitions.1 live).1
    exact ⟨t, present, leaves, (mem_liveTransitions_iff_not_dead present).1 live⟩
  · rintro ⟨t, present, leaves, alive⟩
    exact ⟨index, t, ⟨(mem_liveTransitions_iff_not_dead present).2 alive, leaves⟩, rfl⟩

theorem pairwise_outgoing (state : Ident) : (sys.outgoing state).Pairwise (· < ·) := by
  rw [outgoing, List.pairwise_map]
  exact pairwise_liveTransitions.filter _

/-- What is taken from counters at zero is live. -/
theorem not_dead_of_leads {a b : Ident} {after : Counters} {word : Word}
    (leads : sys.Leads a sys.zero word b after) (mem : (index : Int) ∈ word) :
    index ∉ sys.deadIndices := by
  have travels := leads.travels (Counters.length_zero _)
    (by simp [zero, Counters.zero, Counters.isNonneg])
  obtain ⟨same, t, cast, live⟩ := travels.exists_live _ mem
  rw [Int.ofNat_inj.1 cast]
  exact (mem_liveTransitions_iff_not_dead (mem_liveTransitions.1 live).1).1 live

/-- In a system built with an oracle that decides conjunctions of constraints, the dead transitions
are exactly those that can fire on no counters: there are no natural numbers that stay natural when
the effect is added and of which the guard holds. The transitions that leave a state are the others
with this source, in order of their indices. No word that leads anywhere from counters at zero takes
a dead transition. -/
theorem deadIndices_exact (oracle : Linear.Oracle) (decides : oracle.DecidesConjunctions)
    (draft : SystemDraft) (sys : CounterSystem) (built : build draft oracle = .ok sys) :
    (∀ index, index ∈ sys.deadIndices ↔
      ∃ t, sys.transitions[index]? = some t ∧
        ∀ counters : Counters, counters.length = sys.dimension → counters.isNonneg = true →
          (counters.add t.effect).isNonneg = true → t.guard.holds counters = false) ∧
    (∀ state, (sys.outgoing state).Pairwise (· < ·) ∧
      ∀ index, index ∈ sys.outgoing state ↔
        ∃ t, sys.transitions[index]? = some t ∧ t.source = state ∧ index ∉ sys.deadIndices) ∧
    ∀ a b after word, sys.Leads a sys.zero word b after →
      ∀ index : Nat, (index : Int) ∈ word → index ∉ sys.deadIndices := by
  refine ⟨fun index => ?_, fun state => ⟨pairwise_outgoing state, fun index => mem_outgoing⟩,
    fun a b after word leads index mem => not_dead_of_leads leads mem⟩
  rw [mem_deadIndices, live_of_build built]
  refine exists_congr fun t => and_congr_right fun present => ?_
  have width := (sys.fits t (List.mem_of_getElem? present)).2.2.1
  rw [List.getElem?_map, present, Option.map_some, Option.some.injEq, ← Bool.not_eq_true,
    Transition.isLive_iff decides, ← width]
  simp only [Transition.CanFire, not_exists, not_and, Bool.not_eq_true]

/-- Both transitions take one from the only counter. The first asks for at most zero and the second
for five. -/
def guardedSteps : SystemDraft where
  states := [.int 0, .int 1]
  dimension := .int 1
  transitions :=
    [⟨.int 0, .int 1, .list [.int (-1)], .absent, ⟨[⟨[1], .atMost, 0⟩]⟩⟩,
      ⟨.int 0, .int 1, .list [.int (-1)], .absent, ⟨[⟨[1], .equal, 5⟩]⟩⟩]
  initial := .int 0
  final := .int 1

/-- The first transition is dead and the second, which fires at five, is not. -/
theorem deadIndices_guardedSteps :
    ∃ sys, build guardedSteps = .ok sys ∧ 0 ∈ sys.deadIndices ∧ 0 ∉ sys.outgoing (.int 0) ∧
      1 ∉ sys.deadIndices ∧ 1 ∈ sys.outgoing (.int 0) := by
  obtain ⟨sys, built, dimension, shape⟩ : ∃ sys, build guardedSteps = .ok sys ∧
      sys.dimension = 1 ∧ sys.transitions =
        [⟨.int 0, .int 1, [-1], .text "t0", ⟨[⟨[1], .atMost, 0⟩]⟩⟩,
          ⟨.int 0, .int 1, [-1], .text "t1", ⟨[⟨[1], .equal, 5⟩]⟩⟩] := ⟨_, rfl, rfl, rfl⟩
  obtain ⟨dead_iff, outgoing, -⟩ := deadIndices_exact Linear.solver
    Linear.exact_solver.decidesConjunctions guardedSteps sys built
  rw [dimension, shape] at dead_iff
  rw [shape] at outgoing
  have dead : 0 ∈ sys.deadIndices := by
    refine (dead_iff 0).2 ⟨_, rfl, fun counters width _ lands => ?_⟩
    obtain ⟨c, rfl⟩ := List.length_eq_one_iff.1 width
    have positive : 0 ≤ c + -1 := Counters.isNonneg_iff.1 lands _ List.mem_cons_self
    simp only [Guard.holds, List.all_cons, List.all_nil, Bool.and_true, ← Bool.not_eq_true,
      Linear.holds_atMost, Counters.dot_cons, Counters.nil_dot]
    omega
  have live : 1 ∉ sys.deadIndices := by
    intro mem
    obtain ⟨t, present, never⟩ := (dead_iff 1).1 mem
    cases present
    cases never [5] rfl rfl rfl
  refine ⟨sys, built, dead, fun mem => ?_, live, ?_⟩
  · obtain ⟨t, -, -, alive⟩ := ((outgoing (.int 0)).2 0).1 mem
    exact alive dead
  · exact ((outgoing (.int 0)).2 1).2 ⟨_, rfl, rfl, live⟩

end CounterSystem
end ZeroRun
