import Mathlib
import ZeroRun.Proofs.IntegerReach
import ZeroRun.Proofs.IntegerReach.Trail

/-! What the components of taken transitions tell. If there is none, every taken transition can be
reached from the initial state. A component has all the taken transitions that lead into it, so
the counts it comes from violate its clause. -/
namespace ZeroRun.IntegerReach
open Relation (ReflTransGen)

variable {sys : CounterSystem} {taken loose component : List Indexed} {s : Ident} {t u : Indexed}

/-! ## Reached states -/

/-- The states that one more transition leads to. -/
def successors (taken : List Indexed) (state : Ident) : List Ident :=
  (taken.filter fun e => e.2.source = state).map fun e => e.2.target

theorem mem_successors {next : Ident} :
    next ∈ successors taken s ↔ ∃ e ∈ taken, e.2.source = s ∧ e.2.target = next := by
  simp [successors, and_assoc]

theorem Trail.steps {a b : Ident} {link : List Indexed} (trail : Trail a link b)
    (known : link ⊆ taken) : ReflTransGen (fun x y => y ∈ successors taken x) a b := by
  induction trail with
  | nil => exact .refl
  | cons e _ ih =>
    obtain ⟨here, later⟩ := List.cons_subset.1 known
    exact .head (mem_successors.2 ⟨e, here, rfl, rfl⟩) (ih later)

theorem exists_trail_of_steps {a b : Ident}
    (path : ReflTransGen (fun x y => y ∈ successors taken x) a b) :
    ∃ link, Trail a link b ∧ link ⊆ taken := by
  induction path with
  | refl => exact ⟨[], .nil _, List.nil_subset _⟩
  | tail _ step ih =>
    obtain ⟨link, trail, known⟩ := ih
    obtain ⟨e, mem, rfl, rfl⟩ := mem_successors.1 step
    refine ⟨link ++ [e], trail.append (.single e), ?_⟩
    exact List.append_subset.2 ⟨known, List.cons_subset.2 ⟨mem, List.nil_subset _⟩⟩

/-- The reached states are those that taken transitions lead to. -/
theorem mem_reachedStates :
    s ∈ reachedStates sys taken ↔ ∃ link, Trail sys.initial link s ∧ link ⊆ taken := by
  have start : [sys.initial] ⊆ sys.initial :: taken.map fun e => e.2.target := by simp
  have closed : ∀ state ∈ sys.initial :: taken.map fun e => e.2.target,
      ∀ next ∈ successors taken state, next ∈ sys.initial :: taken.map fun e => e.2.target := by
    intro state _ next step
    obtain ⟨e, mem, -, rfl⟩ := mem_successors.1 step
    exact List.mem_cons_of_mem _ (List.mem_map.2 ⟨e, mem, rfl⟩)
  have spreads : s ∈ reachedStates sys taken ↔
      ∃ first ∈ [sys.initial], ReflTransGen (fun x y => y ∈ successors taken x) first s :=
    mem_spread _ (List.nodup_singleton _) start closed (by simp [Nat.add_comm])
  constructor
  · intro mem
    obtain ⟨first, only, path⟩ := spreads.1 mem
    exact exists_trail_of_steps (List.mem_singleton.1 only ▸ path)
  · rintro ⟨link, trail, known⟩
    exact spreads.2 ⟨sys.initial, List.mem_singleton_self _, trail.steps known⟩

theorem target_mem_reachedStates (mem : t ∈ taken) (source : t.2.source ∈ reachedStates sys taken) :
    t.2.target ∈ reachedStates sys taken := by
  obtain ⟨link, trail, known⟩ := mem_reachedStates.1 source
  refine mem_reachedStates.2 ⟨link ++ [t], trail.append (.single t), ?_⟩
  exact List.append_subset.2 ⟨known, List.cons_subset.2 ⟨mem, List.nil_subset _⟩⟩

theorem mem_detached :
    t ∈ detached sys taken ↔ t ∈ taken ∧ t.2.source ∉ reachedStates sys taken := by
  simp [detached]

/-- Without components nothing is detached. -/
theorem source_mem_reachedStates (whole : componentsOf sys taken = []) (mem : t ∈ taken) :
    t.2.source ∈ reachedStates sys taken := by
  have nothing : detached sys taken = [] := by
    unfold componentsOf at whole
    cases loose : detached sys taken with
    | nil => rfl
    | cons first rest =>
      rw [loose] at whole
      cases whole
  by_contra away
  have apart := mem_detached.2 ⟨mem, away⟩
  rw [nothing] at apart
  cases apart

/-! ## Components hang together -/

/-- Two transitions share a state. -/
def Linked (t u : Indexed) : Prop :=
  touches [u.2.source, u.2.target] t = true

theorem Linked.refl (t : Indexed) : Linked t t := by
  simp [Linked, touches]

theorem Linked.symm (linked : Linked t u) : Linked u t := by
  simp only [Linked, touches, List.mem_cons, List.not_mem_nil, or_false, Bool.or_eq_true,
    decide_eq_true_eq] at linked ⊢
  grind

theorem touches_endpoints :
    touches (endpoints component) t = true ↔ ∃ u ∈ component, Linked t u := by
  simp only [Linked, touches, endpoints, List.mem_flatMap, List.mem_cons, List.not_mem_nil,
    or_false, Bool.or_eq_true, decide_eq_true_eq]
  grind

/-- A pass that moves nothing has met nothing that touches what is inside. -/
theorem not_touches_of_unmoved {inside outside : List Indexed}
    (unmoved : (absorbPass inside outside).2.length = outside.length) :
    absorbPass inside outside = (inside, outside) ∧
      ∀ t ∈ outside, touches (endpoints inside) t = false := by
  induction outside generalizing inside with
  | nil => exact ⟨rfl, by simp⟩
  | cons t outside ih =>
    rw [absorbPass] at unmoved ⊢
    split at unmoved
    · have fewer := (absorbPass_subset (inside ++ [t]) outside).2.length_le
      rw [unmoved, List.length_cons] at fewer
      omega
    · rename_i away
      obtain ⟨same, untouched⟩ := ih (Nat.succ.inj unmoved)
      rw [if_neg away, same]
      exact ⟨rfl, List.forall_mem_cons.2 ⟨Bool.eq_false_iff.2 away, untouched⟩⟩

/-- With enough rounds, nothing outside touches what is inside. -/
theorem not_linked_absorb {rounds : Nat} {inside outside : List Indexed}
    (enough : outside.length ≤ rounds) (left : t ∈ (absorb rounds inside outside).2) :
    ∀ u ∈ (absorb rounds inside outside).1, ¬ Linked t u := by
  induction rounds generalizing inside outside with
  | zero =>
    rw [List.length_eq_zero_iff.1 (Nat.le_zero.1 enough)] at left
    cases left
  | succ rounds ih =>
    rw [absorb] at left ⊢
    split at left
    · rename_i unmoved
      rw [if_pos unmoved]
      obtain ⟨same, untouched⟩ := not_touches_of_unmoved unmoved
      rw [same] at left ⊢
      intro u mem linked
      have touched := touches_endpoints.2 ⟨u, mem, linked⟩
      rw [untouched t left] at touched
      cases touched
    · rename_i moved
      rw [if_neg moved]
      have fewer := (absorbPass_subset inside outside).2.length_le
      exact ih (by omega) left

/-- A component has all the loose transitions that share a state with one of it. -/
theorem mem_of_linked {count : Nat} (found : component ∈ splitComponents count loose)
    (mem : t ∈ loose) (inside : u ∈ component) (linked : Linked t u) : t ∈ component := by
  induction count generalizing loose with
  | zero => cases found
  | succ count ih =>
    cases loose with
    | nil => cases found
    | cons first rest =>
      have placed : t ∈ (absorb rest.length [first] rest).1 ∨
          t ∈ (absorb rest.length [first] rest).2 :=
        List.mem_append.1 ((absorb_perm rest.length [first] rest).mem_iff.2 mem)
      rcases List.mem_cons.1 found with rfl | later
      · rcases placed with here | left
        · exact here
        · exact absurd linked (not_linked_absorb le_rfl left u inside)
      · rcases placed with here | left
        · have outside := (subset_of_mem_splitComponents later).2 inside
          exact absurd linked.symm (not_linked_absorb le_rfl outside t here)
        · exact ih later left

/-- No transition belongs to two components. -/
theorem pairwise_splitComponents (count : Nat) (loose : List Indexed) :
    (splitComponents count loose).Pairwise fun c d => ∀ t ∈ c, t ∉ d := by
  induction count generalizing loose with
  | zero => exact .nil
  | succ count ih =>
    cases loose with
    | nil => exact .nil
    | cons first rest =>
      refine List.pairwise_cons.2 ⟨fun d later t here there => ?_, ih _⟩
      have outside := (subset_of_mem_splitComponents later).2 there
      exact not_linked_absorb le_rfl outside t here (Linked.refl t)

/-- Taken transitions into the sources of a component come from there. -/
theorem source_mem_of_target_mem (found : component ∈ componentsOf sys taken) (mem : t ∈ taken)
    (target : t.2.target ∈ component.map fun e => e.2.source) :
    t.2.source ∈ component.map fun e => e.2.source := by
  obtain ⟨u, inside, same⟩ := List.mem_map.1 target
  have loose := mem_detached.1 ((subset_of_mem_splitComponents found).2 inside)
  have away : t.2.source ∉ reachedStates sys taken := by
    intro reached
    exact loose.2 (same ▸ target_mem_reachedStates mem reached)
  have linked : Linked t u := by
    simp [Linked, touches, same]
  exact List.mem_map.2
    ⟨t, mem_of_linked found (mem_detached.2 ⟨mem, away⟩) inside linked, rfl⟩

end ZeroRun.IntegerReach
