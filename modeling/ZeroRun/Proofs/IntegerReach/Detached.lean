import Mathlib
import ZeroRun.Proofs.IntegerReach.Components

/-! The components of an image. Which transitions are detached, and which of them belong together,
is said of indices alone: a transition is detached if no sequence of taken transitions leads from
the initial state to its source, and two detached ones belong together if a chain of detached ones
joins them in which neighbours share a state. -/
namespace ZeroRun.IntegerReach
open Relation (ReflTransGen)

variable {sys : CounterSystem} {image : Image} {taken loose component : List Indexed}
  {t u first : Indexed}

/-! ## Images -/

/-- The image takes the transition at an index. -/
def Takes (sys : CounterSystem) (image : Image) (index : Int) (t : Transition) : Prop :=
  (∃ count, (index, count) ∈ image ∧ 0 < count) ∧ sys.transitionAt index = .ok t

/-- Taken transitions lead from the initial state to the given one. -/
def Reached (sys : CounterSystem) (image : Image) (state : Ident) : Prop :=
  ReflTransGen (fun a b => ∃ index t, Takes sys image index t ∧ t.source = a ∧ t.target = b)
    sys.initial state

/-- The image takes the transition at an index, and does not reach its source. -/
def Detached (sys : CounterSystem) (image : Image) (index : Int) (t : Transition) : Prop :=
  Takes sys image index t ∧ ¬ Reached sys image t.source

/-- Two transitions have a state in common. -/
def Meets (t u : Transition) : Prop :=
  t.source = u.source ∨ t.source = u.target ∨ t.target = u.source ∨ t.target = u.target

/-- A chain of detached transitions, each with a state of the next, joins two indices. -/
def Chained (sys : CounterSystem) (image : Image) : (i j : Int) → Prop :=
  ReflTransGen fun a b => ∃ t u, Detached sys image a t ∧ Detached sys image b u ∧ Meets t u

/-- A transition at one of the indices begins or ends in the state. -/
def Occurs (sys : CounterSystem) (component : List Int) (state : Ident) : Prop :=
  ∃ index ∈ component, ∃ t, sys.transitionAt index = .ok t ∧ (t.source = state ∨ t.target = state)

theorem linked_iff : Linked t u ↔ Meets t.2 u.2 := by
  simp only [Linked, touches, Meets, List.mem_cons, List.not_mem_nil, or_false, Bool.or_eq_true,
    decide_eq_true_eq]
  tauto

/-- Known indices are looked up in their order. -/
theorem exists_lookedUp {indices : List Int}
    (known : ∀ index ∈ indices, ∃ t, sys.transitionAt index = .ok t) :
    ∃ taken, (indices.mapM fun index => do
        let t ← sys.transitionAt index
        return (index, t)) = .ok taken ∧
      taken.map Prod.fst = indices ∧ ∀ p ∈ taken, sys.transitionAt p.1 = .ok p.2 := by
  induction indices with
  | nil => exact ⟨[], rfl, rfl, by simp⟩
  | cons index indices ih =>
    obtain ⟨t, here⟩ := known index List.mem_cons_self
    obtain ⟨taken, later, order, each⟩ := ih fun other mem => known other (List.mem_cons_of_mem _ mem)
    refine ⟨(index, t) :: taken, ?_, congrArg (index :: ·) order, List.forall_mem_cons.2 ⟨here, each⟩⟩
    rw [List.mapM_cons, here, later]
    rfl

/-- The transitions that an image takes are found, if it takes none that the system lacks. -/
theorem exists_takenOf
    (known : ∀ entry ∈ image, 0 < entry.2 → ∃ t, sys.transitionAt entry.1 = .ok t) :
    ∃ taken, takenOf sys image = .ok taken ∧
      (∀ index t, (index, t) ∈ taken ↔ Takes sys image index t) ∧
      ((image.map Prod.fst).Nodup → (taken.map Prod.fst).Nodup) := by
  set support := ((image.filter fun entry => 0 < entry.2).map Prod.fst).mergeSort (· ≤ ·)
    with support_eq
  have mem_support : ∀ index, index ∈ support ↔ ∃ count, (index, count) ∈ image ∧ 0 < count := by
    simp [support_eq]
  obtain ⟨taken, found, order, each⟩ : ∃ taken, takenOf sys image = .ok taken ∧
      taken.map Prod.fst = support ∧ ∀ p ∈ taken, sys.transitionAt p.1 = .ok p.2 := by
    apply exists_lookedUp
    intro index mem
    obtain ⟨count, entry, positive⟩ := (mem_support index).1 mem
    exact known _ entry positive
  refine ⟨taken, found, fun index t => ⟨fun mem => ⟨?_, each _ mem⟩, ?_⟩, fun nodup => ?_⟩
  · rw [← mem_support, ← order]
    exact List.mem_map_of_mem mem
  · rintro ⟨counted, present⟩
    rw [← mem_support, ← order] at counted
    obtain ⟨⟨_, other⟩, mem, rfl⟩ := List.mem_map.1 counted
    have same := (each _ mem).symm.trans present
    cases same
    exact mem
  · rw [order, support_eq, List.Perm.nodup_iff (List.mergeSort_perm _ _)]
    exact nodup.sublist (List.filter_sublist.map _)

/-! ## Splitting into components -/

/-- The components have all loose transitions between them, each as often as before. -/
theorem flatten_splitComponents_perm {count : Nat} (enough : loose.length ≤ count) :
    (splitComponents count loose).flatten.Perm loose := by
  induction count generalizing loose with
  | zero =>
    rw [List.length_eq_zero_iff.1 (Nat.le_zero.1 enough)]
    exact .nil
  | succ count ih =>
    cases loose with
    | nil => exact .nil
    | cons first rest =>
      have parts := absorb_perm rest.length [first] rest
      have inside : first ∈ (absorb rest.length [first] rest).1 :=
        (absorb_subset rest.length [first] rest).1 List.mem_cons_self
      have fewer : (absorb rest.length [first] rest).2.length ≤ count := by
        have total := parts.length_eq
        have some := List.length_pos_of_mem inside
        rw [List.length_append, List.length_append, List.length_singleton] at total
        rw [List.length_cons] at enough
        omega
      exact ((ih fewer).append_left _).trans parts

/-- Every loose transition is in some component. -/
theorem exists_mem_splitComponents {count : Nat} (enough : loose.length ≤ count) (mem : t ∈ loose) :
    ∃ component ∈ splitComponents count loose, t ∈ component :=
  List.mem_flatten.1 ((flatten_splitComponents_perm enough).mem_iff.2 mem)

/-- Two of the transitions share a state. -/
def LinkedAmong (loose : List Indexed) (t u : Indexed) : Prop :=
  t ∈ loose ∧ u ∈ loose ∧ Linked t u

/-- What is inside is joined to the first transition by loose ones. -/
def Joined (loose : List Indexed) (first : Indexed) (inside : List Indexed) : Prop :=
  ∀ u ∈ inside, ReflTransGen (LinkedAmong loose) first u

/-- A pass takes in only what is joined to the first transition. -/
theorem Joined.absorbPass {inside outside : List Indexed} (joined : Joined loose first inside)
    (among : inside ++ outside ⊆ loose) : Joined loose first (absorbPass inside outside).1 := by
  induction outside generalizing inside with
  | nil => exact joined
  | cons t outside ih =>
    rw [IntegerReach.absorbPass]
    split
    · rename_i touching
      refine ih (fun u mem => ?_) (by rwa [List.append_assoc])
      rcases List.mem_append.1 mem with old | new
      · exact joined u old
      · obtain rfl := List.mem_singleton.1 new
        obtain ⟨v, old, linked⟩ := touches_endpoints.1 touching
        refine (joined v old).tail ⟨among (List.mem_append_left _ old), ?_, linked.symm⟩
        exact among (List.mem_append_right _ List.mem_cons_self)
    · refine ih joined fun u mem => among ?_
      rcases List.mem_append.1 mem with old | away
      · exact List.mem_append_left _ old
      · exact List.mem_append_right _ (List.mem_cons_of_mem _ away)

theorem Joined.absorb {rounds : Nat} {inside outside : List Indexed}
    (joined : Joined loose first inside) (among : inside ++ outside ⊆ loose) :
    Joined loose first (absorb rounds inside outside).1 := by
  induction rounds generalizing inside outside with
  | zero => exact joined
  | succ rounds ih =>
    rw [IntegerReach.absorb]
    split
    · exact joined.absorbPass among
    · exact ih (joined.absorbPass among)
        fun u mem => among ((absorbPass_perm inside outside).subset mem)

/-- The transitions of a component are joined to one of them. -/
theorem exists_chain_of_mem_splitComponents {count : Nat}
    (found : component ∈ splitComponents count loose) :
    ∃ first, ∀ t ∈ component, ReflTransGen (LinkedAmong loose) first t := by
  induction count generalizing loose with
  | zero => cases found
  | succ count ih =>
    cases loose with
    | nil => cases found
    | cons first rest =>
      rcases List.mem_cons.1 found with rfl | later
      · have start : Joined (first :: rest) first [first] := by
          intro u only
          rw [List.mem_singleton.1 only]
        exact ⟨first, start.absorb (List.Subset.refl _)⟩
      · obtain ⟨head, joined⟩ := ih later
        obtain ⟨-, -, left⟩ := absorb_subset rest.length [first] rest
        refine ⟨head, fun t mem => ReflTransGen.mono ?_ _ _ (joined t mem)⟩
        rintro u v ⟨here, there, linked⟩
        exact ⟨List.mem_cons_of_mem _ (left here), List.mem_cons_of_mem _ (left there), linked⟩

instance : Std.Symm (LinkedAmong loose) where
  symm _ _ linked := ⟨linked.2.1, linked.1, linked.2.2.symm⟩

/-- Two loose transitions are in one component if and only if loose ones join them. -/
theorem sameComponent_iff {count : Nat} (enough : loose.length ≤ count) (here : t ∈ loose) :
    (∃ component ∈ splitComponents count loose, t ∈ component ∧ u ∈ component) ↔
      ReflTransGen (LinkedAmong loose) t u := by
  constructor
  · rintro ⟨component, found, left, right⟩
    obtain ⟨first, joined⟩ := exists_chain_of_mem_splitComponents found
    have back : ReflTransGen (LinkedAmong loose) t first :=
      ReflTransGen.stdSymm.symm _ _ (joined t left)
    exact back.trans (joined u right)
  · intro chain
    obtain ⟨component, found, inside⟩ := exists_mem_splitComponents enough here
    refine ⟨component, found, inside, ?_⟩
    induction chain with
    | refl => exact inside
    | tail _ linked before =>
      exact mem_of_linked found linked.2.1 before linked.2.2.symm

/-- Transitions of two components share no state. -/
theorem pairwise_not_linked (count : Nat) (loose : List Indexed) :
    (splitComponents count loose).Pairwise fun c d => ∀ t ∈ c, ∀ u ∈ d, ¬ Linked t u := by
  refine (pairwise_splitComponents count loose).imp_of_mem ?_
  intro c d first second apart t here u there linked
  have known := (subset_of_mem_splitComponents first).2 here
  exact apart t here (mem_of_linked second known there linked)

/-! ## Indices -/

theorem mem_indicesOf {index : Int} :
    index ∈ indicesOf component ↔ ∃ t, (index, t) ∈ component := by
  simp [indicesOf]

theorem Detached.unique {index : Int} {t u : Transition} (first : Detached sys image index t)
    (second : Detached sys image index u) : t = u := by
  have same := first.1.2.symm.trans second.1.2
  cases same
  rfl

section Taken
variable (exact_taken : ∀ index t, (index, t) ∈ taken ↔ Takes sys image index t)
include exact_taken

theorem mem_reachedStates_iff_reached {state : Ident} :
    state ∈ reachedStates sys taken ↔ Reached sys image state := by
  have steps : (fun a b => b ∈ successors taken a) = fun a b =>
      ∃ index t, Takes sys image index t ∧ t.source = a ∧ t.target = b := by
    funext a b
    simp [mem_successors, exact_taken]
  rw [Reached, ← steps, mem_reachedStates]
  constructor
  · rintro ⟨link, trail, known⟩
    exact trail.steps known
  · intro path
    exact exists_trail_of_steps path

theorem mem_detached_iff {index : Int} {t : Transition} :
    (index, t) ∈ detached sys taken ↔ Detached sys image index t := by
  rw [mem_detached, exact_taken, mem_reachedStates_iff_reached exact_taken]
  rfl

/-- Transitions are joined by detached ones if and only if their indices are. -/
theorem chained_iff {i j : Int} {t u : Transition} (first : Detached sys image i t)
    (last : Detached sys image j u) :
    ReflTransGen (LinkedAmong (detached sys taken)) (i, t) (j, u) ↔ Chained sys image i j := by
  have linked : ∀ {a b : Int} {v w : Transition},
      LinkedAmong (detached sys taken) (a, v) (b, w) ↔
        Detached sys image a v ∧ Detached sys image b w ∧ Meets v w := by
    intro a b v w
    rw [LinkedAmong, mem_detached_iff exact_taken, mem_detached_iff exact_taken, linked_iff]
  constructor
  · intro chain
    refine ReflTransGen.lift Prod.fst ?_ _ _ chain
    rintro ⟨a, v⟩ ⟨b, w⟩ step
    exact ⟨v, w, linked.1 step⟩
  · intro chain
    induction chain generalizing u with
    | refl => rw [first.unique last]
    | tail _ step ih =>
      obtain ⟨v, w, here, there, meets⟩ := step
      obtain rfl := last.unique there
      exact (ih here).tail (linked.2 ⟨here, last, meets⟩)

theorem detached_of_mem_component (part : component ∈ componentsOf sys taken) {index : Int}
    {t : Transition} (mem : (index, t) ∈ component) : Detached sys image index t :=
  (mem_detached_iff exact_taken).1 ((subset_of_mem_splitComponents part).2 mem)

theorem mem_indicesOf_iff (part : component ∈ componentsOf sys taken) {index : Int} {t : Transition}
    (away : Detached sys image index t) : index ∈ indicesOf component ↔ (index, t) ∈ component := by
  rw [mem_indicesOf]
  refine ⟨?_, fun mem => ⟨t, mem⟩⟩
  rintro ⟨u, mem⟩
  rwa [away.unique (detached_of_mem_component exact_taken part mem)]

theorem exists_component_iff {index : Int} :
    (∃ component ∈ componentsOf sys taken, index ∈ indicesOf component) ↔
      ∃ t, Detached sys image index t := by
  constructor
  · rintro ⟨component, part, mem⟩
    obtain ⟨t, mem⟩ := mem_indicesOf.1 mem
    exact ⟨t, detached_of_mem_component exact_taken part mem⟩
  · rintro ⟨t, away⟩
    obtain ⟨component, part, mem⟩ :=
      exists_mem_splitComponents le_rfl ((mem_detached_iff exact_taken).2 away)
    exact ⟨component, part, mem_indicesOf.2 ⟨t, mem⟩⟩

theorem exists_common_component_iff {i j : Int} {t u : Transition} (first : Detached sys image i t)
    (last : Detached sys image j u) :
    (∃ component ∈ componentsOf sys taken, i ∈ indicesOf component ∧ j ∈ indicesOf component) ↔
      Chained sys image i j := by
  rw [← chained_iff exact_taken first last,
    ← sameComponent_iff le_rfl ((mem_detached_iff exact_taken).2 first)]
  refine exists_congr fun component => and_congr_right fun part => ?_
  rw [mem_indicesOf_iff exact_taken part first, mem_indicesOf_iff exact_taken part last]

theorem pairwise_disjoint_indicesOf :
    ((componentsOf sys taken).map indicesOf).Pairwise List.Disjoint := by
  refine List.pairwise_map.2 ((pairwise_splitComponents _ _).imp_of_mem ?_)
  intro c d first second apart index here there
  obtain ⟨t, here⟩ := mem_indicesOf.1 here
  have away := detached_of_mem_component exact_taken first here
  exact apart _ here ((mem_indicesOf_iff exact_taken second away).1 there)

theorem pairwise_not_occurs :
    ((componentsOf sys taken).map indicesOf).Pairwise fun c d =>
      ∀ state, Occurs sys c state → ¬ Occurs sys d state := by
  refine List.pairwise_map.2 ((pairwise_not_linked _ _).imp_of_mem ?_)
  rintro c d first second apart state ⟨i, here, t, present, ends⟩ ⟨j, there, u, known, meets⟩
  obtain ⟨v, here⟩ := mem_indicesOf.1 here
  obtain ⟨w, there⟩ := mem_indicesOf.1 there
  cases present.symm.trans (detached_of_mem_component exact_taken first here).1.2
  cases known.symm.trans (detached_of_mem_component exact_taken second there).1.2
  refine apart _ here _ there (linked_iff.2 ?_)
  rcases ends with rfl | rfl <;> rcases meets with same | same <;> simp [Meets, same]

end Taken

theorem indicesOf_ne_nil (part : component ∈ componentsOf sys taken) :
    indicesOf component ≠ [] := by
  obtain ⟨⟨index, t⟩, mem⟩ := List.exists_mem_of_ne_nil _ (subset_of_mem_splitComponents part).1
  exact List.ne_nil_of_mem (mem_indicesOf.2 ⟨t, mem⟩)

theorem nodup_indicesOf (distinct : (taken.map Prod.fst).Nodup)
    (part : component ∈ componentsOf sys taken) : (indicesOf component).Nodup := by
  rw [indicesOf, List.Perm.nodup_iff (List.mergeSort_perm _ _)]
  have parts : (componentsOf sys taken).flatten.Perm (detached sys taken) :=
    flatten_splitComponents_perm le_rfl
  have whole : ((componentsOf sys taken).flatten.map Prod.fst).Nodup := by
    rw [(parts.map Prod.fst).nodup_iff]
    exact distinct.sublist (List.filter_sublist.map _)
  exact whole.sublist ((List.sublist_flatten_of_mem part).map _)

/-- Where all taken indices are known, the detached transitions are split into components: none is
empty, no index is in two, all detached transitions are in one and no other is. Two detached
transitions are in the same component if and only if a chain of detached ones joins them, and no
state occurs in two components. -/
theorem detachedComponents_exact
    (known : ∀ entry ∈ image, 0 < entry.2 → ∃ t, sys.transitionAt entry.1 = .ok t) :
    ∃ components, detachedComponents sys image = .ok components ∧
      (∀ component ∈ components, component ≠ []) ∧
      ((image.map Prod.fst).Nodup → ∀ component ∈ components, component.Nodup) ∧
      components.Pairwise List.Disjoint ∧
      (∀ index, (∃ component ∈ components, index ∈ component) ↔ ∃ t, Detached sys image index t) ∧
      (∀ i j t u, Detached sys image i t → Detached sys image j u →
        ((∃ component ∈ components, i ∈ component ∧ j ∈ component) ↔ Chained sys image i j)) ∧
      components.Pairwise fun c d => ∀ state, Occurs sys c state → ¬ Occurs sys d state := by
  obtain ⟨taken, found, exact_taken, nodup⟩ := exists_takenOf known
  have answer : detachedComponents sys image = .ok ((componentsOf sys taken).map indicesOf) := by
    rw [detachedComponents, found]
    rfl
  refine ⟨_, answer, ?_, fun distinct => ?_, pairwise_disjoint_indicesOf exact_taken, fun index => ?_,
    fun i j t u first last => ?_, pairwise_not_occurs exact_taken⟩
  · exact List.forall_mem_map.2 fun component part => indicesOf_ne_nil part
  · exact List.forall_mem_map.2 fun component part => nodup_indicesOf (nodup distinct) part
  · simp only [List.mem_map, exists_exists_and_eq_and]
    exact exists_component_iff exact_taken
  · simp only [List.mem_map, exists_exists_and_eq_and]
    exact exists_common_component_iff exact_taken first last

/-- A loop at the initial state, a loop away from it, and three more transitions away from both. The
second of these shares no state with the first, but both share one with the third. -/
def islands : CounterSystem where
  states := [.int 0, .int 1, .int 2, .int 3, .int 4, .int 5]
  dimension := 0
  declaredDimension := .int 0
  transitions :=
    [⟨.int 1, .int 2, [], .absent, .always⟩, ⟨.int 4, .int 3, [], .absent, .always⟩,
      ⟨.int 2, .int 3, [], .absent, .always⟩, ⟨.int 5, .int 5, [], .absent, .always⟩,
      ⟨.int 0, .int 0, [], .absent, .always⟩]
  initial := .int 0
  final := .int 0
  live := [true, true, true, true, true]
  nodup_states := by decide
  initial_mem := by decide
  final_mem := by decide
  fits := by simp [Transition.Fits, Guard.always]
  live_length := rfl
  dead_never_fires index t _ dead := by simpa using List.mem_of_getElem? dead

/-- Everything is taken, and the first two detached transitions belong together. -/
theorem detachedComponents_islands :
    detachedComponents islands [(4, 1), (3, 7), (0, 1), (1, 2), (2, 1)] = .ok [[0, 1, 2], [3]] ∧
      Chained islands [(4, 1), (3, 7), (0, 1), (1, 2), (2, 1)] 0 1 ∧
      ¬ Chained islands [(4, 1), (3, 7), (0, 1), (1, 2), (2, 1)] 0 3 := by
  have known : ∀ entry ∈ [((4 : Int), (1 : Int)), (3, 7), (0, 1), (1, 2), (2, 1)], 0 < entry.2 →
      ∃ t, islands.transitionAt entry.1 = .ok t := by
    simp [CounterSystem.transitionAt, islands, itemAt?]
  have computed : detachedComponents islands [(4, 1), (3, 7), (0, 1), (1, 2), (2, 1)] =
      .ok [[0, 1, 2], [3]] := by cbv
  obtain ⟨components, answer, -, -, -, each, together, -⟩ := detachedComponents_exact known
  cases computed.symm.trans answer
  obtain ⟨t, first⟩ := (each 0).1 (by decide)
  obtain ⟨u, second⟩ := (each 1).1 (by decide)
  obtain ⟨v, third⟩ := (each 3).1 (by decide)
  refine ⟨computed, (together _ _ _ _ first second).1 (by decide), ?_⟩
  rw [← together _ _ _ _ first third]
  decide

end ZeroRun.IntegerReach
