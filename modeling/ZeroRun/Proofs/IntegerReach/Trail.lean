import Mathlib
import ZeroRun.IntegerReach.Equations

/-! Transitions that are left as often as entered, the two ends apart, and that hang together can
all be taken in a row. A trail through some of them leaves a rest in which every state is entered as
often as it is left. If the rest is not empty, one of its transitions leaves a state on the trail;
a loop from there through the rest makes the trail longer. -/
namespace ZeroRun.IntegerReach

variable {a b c s : Ident} {edge : Indexed} {edges path rest u v : List Indexed}

/-! ## Trails -/

/-- Each transition begins where the one before it ends. -/
inductive Trail : Ident → List Indexed → Ident → Prop where
  | nil (state : Ident) : Trail state [] state
  | cons {edges : List Indexed} {b : Ident} (edge : Indexed)
      (rest : Trail edge.2.target edges b) : Trail edge.2.source (edge :: edges) b

namespace Trail

theorem single (edge : Indexed) : Trail edge.2.source [edge] edge.2.target :=
  .cons edge (.nil _)

theorem append (left : Trail a u b) (right : Trail b v c) : Trail a (u ++ v) c := by
  induction left with
  | nil => exact right
  | cons edge _ ih => exact .cons edge (ih right)

theorem split (trail : Trail a (u ++ v) c) : ∃ state, Trail a u state ∧ Trail state v c := by
  induction u generalizing a with
  | nil => exact ⟨a, .nil a, trail⟩
  | cons edge u ih =>
    cases trail with
    | cons _ rest =>
      obtain ⟨state, before, after⟩ := ih rest
      exact ⟨state, .cons edge before, after⟩

end Trail

/-- A state on the way. -/
def Passes (a : Ident) (path : List Indexed) (b s : Ident) : Prop :=
  ∃ u v, path = u ++ v ∧ Trail a u s ∧ Trail s v b

theorem Trail.passes_start (trail : Trail a path b) : Passes a path b a :=
  ⟨[], path, rfl, .nil a, trail⟩

theorem Trail.passes_target (trail : Trail a path b) (mem : edge ∈ path) :
    Passes a path b edge.2.target := by
  obtain ⟨u, v, rfl⟩ := List.append_of_mem mem
  obtain ⟨state, before, after⟩ := trail.split
  cases after with
  | cons _ after => exact ⟨u ++ [edge], v, by simp, before.append (.single edge), after⟩

/-! ## Arrivals and departures -/

/-- How much more often the transitions enter a state than they leave it. -/
def surplus (state : Ident) (edges : List Indexed) : Int :=
  (edges.map fun e => one (e.2.target = state) - one (e.2.source = state)).sum

theorem surplus_cons (state : Ident) :
    surplus state (edge :: edges) =
      one (edge.2.target = state) - one (edge.2.source = state) + surplus state edges := by
  rw [surplus, List.map_cons, List.sum_cons, surplus]

theorem surplus_of_perm (perm : u.Perm v) (state : Ident) : surplus state u = surplus state v :=
  (perm.map _).sum_eq

/-- Arrivals and departures balance but for a departure from the first and an arrival in the second
state. -/
def Balanced (a b : Ident) (edges : List Indexed) : Prop :=
  ∀ state, surplus state edges = one (b = state) - one (a = state)

theorem Balanced.of_perm (balanced : Balanced a b u) (perm : u.Perm v) : Balanced a b v :=
  fun state => (surplus_of_perm perm state).symm.trans (balanced state)

/-- Where the transitions go on after one of them. -/
theorem Balanced.tail (balanced : Balanced edge.2.source b (edge :: edges)) :
    Balanced edge.2.target b edges := by
  intro state
  have here := balanced state
  rw [surplus_cons] at here
  omega

theorem Balanced.exists_departure (balanced : Balanced a b edges) (ne : a ≠ b) :
    ∃ edge ∈ edges, edge.2.source = a := by
  by_contra none
  push Not at none
  have gain : 0 ≤ surplus a edges := by
    refine List.sum_nonneg fun x mem => ?_
    obtain ⟨edge, inside, rfl⟩ := List.mem_map.1 mem
    simp only [one, none edge inside]
    split <;> decide
  have loss := balanced a
  simp [one, Ne.symm ne] at loss
  omega

/-- Some of the transitions lead from one end to the other, and the rest balance. -/
theorem Balanced.exists_trail {a : Ident} {edges : List Indexed} (balanced : Balanced a b edges) :
    ∃ path rest, (path ++ rest).Perm edges ∧ Trail a path b ∧ ∀ state, surplus state rest = 0 := by
  by_cases same : a = b
  · subst same
    exact ⟨[], edges, .refl _, .nil a, fun state => (balanced state).trans (Int.sub_self _)⟩
  · obtain ⟨edge, mem, rfl⟩ := balanced.exists_departure same
    have perm := List.perm_cons_erase mem
    have shorter : (edges.erase edge).length < edges.length := by
      rw [perm.length_eq, List.length_cons]
      exact Nat.lt_succ_self _
    obtain ⟨path, rest, all, trail, idle⟩ := (balanced.of_perm perm).tail.exists_trail
    exact ⟨edge :: path, rest, (all.cons edge).trans perm.symm, .cons edge trail, idle⟩
termination_by edges.length

/-- If all states balance, a loop leads through each transition. -/
theorem exists_loop (idle : ∀ state, surplus state rest = 0) (mem : edge ∈ rest) :
    ∃ loop left, (edge :: loop ++ left).Perm rest ∧
      Trail edge.2.source (edge :: loop) edge.2.source ∧ ∀ state, surplus state left = 0 := by
  have perm := List.perm_cons_erase mem
  have balanced : Balanced edge.2.source edge.2.source (edge :: rest.erase edge) := by
    intro state
    rw [← surplus_of_perm perm, idle, Int.sub_self]
  obtain ⟨loop, left, all, trail, idle⟩ := balanced.tail.exists_trail
  exact ⟨loop, left, (all.cons edge).trans perm.symm, .cons edge trail, idle⟩

/-! ## A trail through all transitions -/

/-- On the way to a transition that is not on the trail, a first one is left out. -/
theorem Trail.exists_missed (trail : Trail a path b) {link : List Indexed}
    (reach : Trail s link edge.2.source) (known : link ⊆ path ++ rest) (mem : edge ∈ rest)
    (passes : Passes a path b s) : ∃ missed ∈ rest, Passes a path b missed.2.source := by
  induction link generalizing s with
  | nil =>
    cases reach
    exact ⟨edge, mem, passes⟩
  | cons step link ih =>
    cases reach with
    | cons _ reach =>
      rcases List.mem_append.1 (known List.mem_cons_self) with inside | outside
      · exact ih reach (fun e later => known (List.mem_cons_of_mem _ later))
          (trail.passes_target inside)
      · exact ⟨step, outside, passes⟩

theorem Trail.exists_order {path rest : List Indexed} (trail : Trail a path b)
    (idle : ∀ state, surplus state rest = 0)
    (connected : ∀ edge ∈ rest, ∃ link, Trail a link edge.2.source ∧ link ⊆ path ++ rest) :
    ∃ order, order.Perm (path ++ rest) ∧ Trail a order b := by
  by_cases nothing : rest = []
  · exact ⟨path, by simp [nothing], trail⟩
  · obtain ⟨edge, mem⟩ := List.exists_mem_of_ne_nil rest nothing
    obtain ⟨link, reach, known⟩ := connected edge mem
    obtain ⟨missed, outside, u, v, rfl, before, after⟩ :=
      trail.exists_missed reach known mem trail.passes_start
    obtain ⟨loop, left, all, around, idle⟩ := exists_loop idle outside
    have longer : Trail a (u ++ (missed :: loop) ++ v) b := (before.append around).append after
    have perm : (u ++ (missed :: loop) ++ v ++ left).Perm (u ++ v ++ rest) := by
      have swap : (missed :: loop ++ v ++ left).Perm (v ++ (missed :: loop ++ left)) := by
        rw [List.append_assoc]
        exact List.perm_append_comm_assoc _ _ _
      have moved := (swap.trans (all.append_left v)).append_left u
      simpa only [List.append_assoc] using moved
    have shorter : left.length < rest.length := by
      have := all.length_eq
      simp at this
      omega
    obtain ⟨order, same, whole⟩ := longer.exists_order idle fun e mem => by
      have inside : e ∈ rest := all.subset (List.mem_append_right _ mem)
      obtain ⟨link, reach, known⟩ := connected e inside
      exact ⟨link, reach, fun step here => perm.symm.subset (known here)⟩
    exact ⟨order, same.trans perm, whole⟩
termination_by rest.length

/-- Transitions that balance between two states, all of which can be reached from the first one,
can all be taken in a row from there to the second one. -/
theorem Balanced.exists_order (balanced : Balanced a b edges)
    (connected : ∀ edge ∈ edges, ∃ link, Trail a link edge.2.source ∧ link ⊆ edges) :
    ∃ order, order.Perm edges ∧ Trail a order b := by
  obtain ⟨path, rest, all, trail, idle⟩ := balanced.exists_trail
  obtain ⟨order, same, whole⟩ := trail.exists_order idle fun edge mem => by
    obtain ⟨link, reach, known⟩ := connected edge (all.subset (List.mem_append_right _ mem))
    exact ⟨link, reach, fun step here => all.symm.subset (known here)⟩
  exact ⟨order, same.trans all, whole⟩

end ZeroRun.IntegerReach
