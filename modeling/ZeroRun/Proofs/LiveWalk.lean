import Mathlib
import ZeroRun.Run
import ZeroRun.Walk

/-! Walks along live transitions. A run never takes a dead transition, so every run is such a walk;
what the library searches are these walks. The walks of a bounded length are finitely many and are
listed without repetition. -/
namespace ZeroRun

namespace CounterSystem
variable {sys : CounterSystem}

/-! ## Live transitions -/

theorem mem_liveTransitions {index : Nat} {t : Transition} :
    (index, t) ∈ sys.liveTransitions ↔
      sys.transitions[index]? = some t ∧ sys.live[index]? = some true := by
  simp only [liveTransitions, List.mem_filterMap, Prod.exists, List.mem_zipIdx_iff_getElem?,
    List.getElem?_zip_eq_some]
  constructor
  · rintro ⟨t, live, i, ⟨present, alive⟩, kept⟩
    cases live with
    | false => simp at kept
    | true =>
      obtain ⟨rfl, rfl⟩ := Prod.mk.inj (Option.some.inj kept)
      exact ⟨present, alive⟩
  · rintro ⟨present, alive⟩
    exact ⟨t, true, index, ⟨present, alive⟩, rfl⟩

/-- The live transitions stand in the order of their indices. -/
theorem pairwise_liveTransitions :
    sys.liveTransitions.Pairwise fun a b => a.1 < b.1 := by
  rw [liveTransitions, List.pairwise_filterMap]
  have ordered : ((sys.transitions.zip sys.live).zipIdx).Pairwise fun a b => a.2 < b.2 := by
    rw [← List.pairwise_map (f := Prod.snd), List.zipIdx_map_snd]
    exact List.pairwise_lt_range'
  refine ordered.imp ?_
  rintro ⟨⟨t, alive⟩, i⟩ ⟨⟨t', alive'⟩, j⟩ less a hold a' hold'
  cases alive <;> cases alive' <;> simp at hold hold'
  subst hold hold'
  exact less

theorem fits_of_live {index : Nat} {t : Transition} (live : (index, t) ∈ sys.liveTransitions) :
    t.Fits sys.states sys.dimension :=
  sys.fits t (List.mem_of_getElem? (mem_liveTransitions.1 live).1)

/-- A transition that fires somewhere is live. -/
theorem live_of_canFire {index : Nat} {t : Transition} {counters : Counters}
    (present : sys.transitions[index]? = some t) (fires : t.CanFire counters) :
    (index, t) ∈ sys.liveTransitions := by
  refine mem_liveTransitions.2 ⟨present, ?_⟩
  obtain ⟨inside, -⟩ := List.getElem?_eq_some_iff.1 present
  have known : index < sys.live.length := by rwa [sys.live_length]
  rw [List.getElem?_eq_getElem known]
  cases alive : sys.live[index] with
  | true => rfl
  | false =>
    have dead : sys.live[index]? = some false := by rw [List.getElem?_eq_getElem known, alive]
    exact absurd fires (sys.dead_never_fires index t present dead counters)

/-! ## Walks -/

/-- The word goes along live transitions from one state to another. -/
inductive Travels (sys : CounterSystem) : Ident → Word → Ident → Prop where
  | nil (state : Ident) : sys.Travels state [] state
  | cons {word : Word} {state : Ident} (index : Nat) (t : Transition)
      (live : (index, t) ∈ sys.liveTransitions) (rest : sys.Travels t.target word state) :
      sys.Travels t.source ((index : Int) :: word) state

namespace Travels
variable {a b c : Ident} {u v word : Word}

theorem append (left : sys.Travels a u b) (right : sys.Travels b v c) :
    sys.Travels a (u ++ v) c := by
  induction left with
  | nil => exact right
  | cons index t live _ ih => exact .cons index t live (ih right)

/-- A walk passes through a state at every place. -/
theorem split (travels : sys.Travels a (u ++ v) c) :
    ∃ b, sys.Travels a u b ∧ sys.Travels b v c := by
  induction u generalizing a with
  | nil => exact ⟨a, .nil a, travels⟩
  | cons letter u ih =>
    cases travels with
    | cons index t live rest =>
      obtain ⟨b, left, right⟩ := ih rest
      exact ⟨b, .cons index t live left, right⟩

theorem nil_iff : sys.Travels a [] b ↔ b = a := by
  constructor
  · intro travels
    generalize spelled : ([] : Word) = word at travels
    cases travels with
    | nil => rfl
    | cons => cases spelled
  · rintro rfl
    exact .nil _

/-- The first transition of a walk, if its index is known. -/
theorem cons_iff {index : Nat} {t : Transition} (live : (index, t) ∈ sys.liveTransitions) :
    sys.Travels a ((index : Int) :: word) c ↔ a = t.source ∧ sys.Travels t.target word c := by
  constructor
  · intro travels
    generalize spelled : (index : Int) :: word = letters at travels
    cases travels with
    | nil => cases spelled
    | cons other move known rest =>
      obtain ⟨same, rfl⟩ := List.cons.inj spelled
      have present := (mem_liveTransitions.1 live).1
      rw [Int.ofNat_inj.1 same, (mem_liveTransitions.1 known).1] at present
      obtain rfl := Option.some.inj present
      exact ⟨rfl, rest⟩
  · rintro ⟨rfl, rest⟩
    exact .cons index t live rest

/-- The last transition of a walk. -/
theorem concat_iff {letter : Int} : sys.Travels a (word ++ [letter]) c ↔
    ∃ (index : Nat) (t : Transition), letter = index ∧ (index, t) ∈ sys.liveTransitions ∧
      sys.Travels a word t.source ∧ c = t.target := by
  constructor
  · intro travels
    obtain ⟨b, before, last⟩ := travels.split
    generalize spelled : [letter] = single at last
    cases last with
    | nil => cases spelled
    | cons index t live rest =>
      obtain ⟨rfl, rfl⟩ := List.cons.inj spelled
      exact ⟨index, t, rfl, live, before, nil_iff.1 rest⟩
  · rintro ⟨index, t, rfl, live, before, rfl⟩
    exact before.append (.cons index t live (.nil _))

theorem target_mem (travels : sys.Travels a word b) (mem : a ∈ sys.states) : b ∈ sys.states := by
  induction travels with
  | nil => exact mem
  | cons index t live _ ih => exact ih (fits_of_live live).2.1

/-- All letters of a walk are live transitions. -/
theorem exists_live (travels : sys.Travels a word b) :
    ∀ letter ∈ word, ∃ index t, letter = (index : Nat) ∧ (index, t) ∈ sys.liveTransitions := by
  induction travels with
  | nil => simp
  | cons index t live _ ih =>
    intro letter mem
    rcases List.mem_cons.1 mem with rfl | mem
    · exact ⟨index, t, rfl, live⟩
    · exact ih letter mem

end Travels

/-- What a word leads to when counters start natural, it leads to along live transitions. -/
theorem Leads.travels {a b : Ident} {before after : Counters} {word : Word}
    (leads : sys.Leads a before word b after) (width : before.length = sys.dimension)
    (natural : before.isNonneg = true) : sys.Travels a word b := by
  induction leads with
  | nil => exact .nil _
  | cons index t counters present guarded lands _ ih =>
    have fit := (sys.fits t (List.mem_of_getElem? present)).2.2.1
    have fires : t.CanFire counters := ⟨width.trans fit.symm, natural, lands, guarded⟩
    refine .cons index t (live_of_canFire present fires) (ih ?_ lands)
    simp [Counters.add, width, fit]

/-- Every run is a walk along live transitions. -/
theorem IsRun.travels {word : Word} (run : sys.IsRun word) :
    sys.Travels sys.initial word sys.final :=
  run.2.travels (by simp [zero, Counters.zero]) (by simp [zero, Counters.zero, Counters.isNonneg])

/-! ## Counting walks -/

/-- The words of a length that go along live transitions from a state to the final one. -/
def walksOfLength (sys : CounterSystem) : (length : Nat) → (state : Ident) → List Word
  | 0, state => if state = sys.final then [[]] else []
  | length + 1, state =>
    (sys.liveTransitions.filter fun p => p.2.source = state).flatMap fun p =>
      (sys.walksOfLength length p.2.target).map ((p.1 : Int) :: ·)

/-- The non-empty words up to a length that go along live transitions from the initial to the final
state. -/
def walksUpTo (sys : CounterSystem) (length : Nat) : List Word :=
  (List.range length).flatMap fun n => sys.walksOfLength (n + 1) sys.initial

theorem mem_walksOfLength {length : Nat} {state : Ident} {word : Word} :
    word ∈ sys.walksOfLength length state ↔
      word.length = length ∧ sys.Travels state word sys.final := by
  induction length generalizing state word with
  | zero =>
    constructor
    · intro mem
      rw [walksOfLength] at mem
      split at mem
      · rename_i final
        obtain rfl := List.mem_singleton.1 mem
        exact ⟨rfl, final ▸ .nil _⟩
      · cases mem
    · rintro ⟨empty, travels⟩
      obtain rfl := List.length_eq_zero_iff.1 empty
      cases travels
      simp [walksOfLength]
  | succ length ih =>
    simp only [walksOfLength, List.mem_flatMap, List.mem_filter, decide_eq_true_eq, List.mem_map]
    constructor
    · rintro ⟨⟨index, t⟩, ⟨live, rfl⟩, rest, mem, rfl⟩
      obtain ⟨long, travels⟩ := ih.1 mem
      exact ⟨by simp [long], .cons index t live travels⟩
    · rintro ⟨long, travels⟩
      cases travels with
      | nil => cases long
      | cons index t live rest =>
        exact ⟨(index, t), ⟨live, rfl⟩, _, ih.2 ⟨by simpa using long, rest⟩, rfl⟩

theorem nodup_walksOfLength (length : Nat) (state : Ident) :
    (sys.walksOfLength length state).Nodup := by
  induction length generalizing state with
  | zero => rw [walksOfLength]; split <;> simp
  | succ length ih =>
    rw [walksOfLength, List.nodup_flatMap]
    refine ⟨fun p _ => (ih _).map (List.cons_injective), ?_⟩
    refine (pairwise_liveTransitions.filter _).imp fun {p q} less => ?_
    intro word left right
    obtain ⟨u, -, rfl⟩ := List.mem_map.1 left
    obtain ⟨v, -, same⟩ := List.mem_map.1 right
    have equal := (List.cons.inj same).1
    omega

theorem mem_walksUpTo {length : Nat} {word : Word} :
    word ∈ sys.walksUpTo length ↔
      word ≠ [] ∧ word.length ≤ length ∧ sys.Travels sys.initial word sys.final := by
  simp only [walksUpTo, List.mem_flatMap, List.mem_range, mem_walksOfLength]
  constructor
  · rintro ⟨n, less, long, travels⟩
    refine ⟨?_, by omega, travels⟩
    rintro rfl
    cases long
  · rintro ⟨ne, le, travels⟩
    have pos := List.length_pos_of_ne_nil ne
    exact ⟨word.length - 1, by omega, by omega, travels⟩

theorem nodup_walksUpTo (length : Nat) : (sys.walksUpTo length).Nodup := by
  rw [walksUpTo, List.nodup_flatMap]
  refine ⟨fun n _ => nodup_walksOfLength _ _, List.nodup_range.imp fun {m n} ne => ?_⟩
  intro word left right
  have first := (mem_walksOfLength.1 left).1
  have second := (mem_walksOfLength.1 right).1
  omega

/-- The number of non-empty walks up to a length from the initial to the final state. -/
def walkCount (sys : CounterSystem) (length : Nat) : Nat :=
  (sys.walksUpTo length).length

/-! ## Small systems -/

/-- Three states in a row. -/
def threeStates : List Ident :=
  [.int 0, .int 1, .int 2]

/-- One counter goes down or up by one, and then up or down by one. -/
def downOrUp : CounterSystem where
  states := threeStates
  dimension := 1
  declaredDimension := .int 1
  transitions :=
    [⟨.int 0, .int 1, [-1], .absent, .always⟩, ⟨.int 0, .int 1, [1], .absent, .always⟩,
      ⟨.int 1, .int 2, [1], .absent, .always⟩, ⟨.int 1, .int 2, [-1], .absent, .always⟩]
  initial := .int 0
  final := .int 2
  live := [true, true, true, true]
  nodup_states := by decide
  initial_mem := by decide
  final_mem := by decide
  fits := by simp [Transition.Fits, Guard.always, threeStates]
  live_length := rfl
  dead_never_fires index t _ dead := by simpa using List.mem_of_getElem? dead

theorem walksOfLength_downOrUp (length : Nat) :
    downOrUp.walksOfLength length (.int 0) =
      if length = 2 then [[0, 2], [0, 3], [1, 2], [1, 3]] else [] := by
  match length with
  | 0 | 1 | 2 | length + 3 => simp [walksOfLength, downOrUp, liveTransitions]

theorem travels_downOrUp_iff {word : Word} :
    downOrUp.Travels (.int 0) word (.int 2) ↔ word ∈ [[0, 2], [0, 3], [1, 2], [1, 3]] := by
  have listed : downOrUp.Travels (.int 0) word (.int 2) ↔
      word ∈ downOrUp.walksOfLength word.length (.int 0) := by
    rw [mem_walksOfLength]
    exact (and_iff_right rfl).symm
  rw [listed, walksOfLength_downOrUp]
  constructor
  · intro mem
    split at mem
    · exact mem
    · cases mem
  · intro mem
    have length : word.length = 2 := by
      fin_cases mem <;> rfl
    rwa [if_pos length]

/-- A step up to the final state, and a loop down in a state that can be left but is never
reached. -/
def looseLoop : CounterSystem where
  states := threeStates
  dimension := 1
  declaredDimension := .int 1
  transitions :=
    [⟨.int 0, .int 1, [1], .absent, .always⟩, ⟨.int 2, .int 2, [-1], .absent, .always⟩,
      ⟨.int 2, .int 0, [0], .absent, .always⟩]
  initial := .int 0
  final := .int 1
  live := [true, true, true]
  nodup_states := by decide
  initial_mem := by decide
  final_mem := by decide
  fits := by simp [Transition.Fits, Guard.always, threeStates]
  live_length := rfl
  dead_never_fires index t _ dead := by simpa using List.mem_of_getElem? dead

theorem walksOfLength_looseLoop (length : Nat) :
    looseLoop.walksOfLength length (.int 0) = if length = 1 then [[0]] else [] := by
  match length with
  | 0 | 1 | length + 2 => simp [walksOfLength, looseLoop, liveTransitions]

theorem eq_of_travels_looseLoop {word : Word}
    (travels : looseLoop.Travels (.int 0) word (.int 1)) : word = [0] := by
  have mem := mem_walksOfLength.2 ⟨rfl, travels⟩
  rw [walksOfLength_looseLoop] at mem
  split at mem
  · exact List.mem_singleton.1 mem
  · cases mem

/-- Loops that go up and down by two, and then a step up by one. -/
def evenLoop : CounterSystem where
  states := threeStates
  dimension := 1
  declaredDimension := .int 1
  transitions :=
    [⟨.int 0, .int 0, [2], .absent, .always⟩, ⟨.int 0, .int 1, [1], .absent, .always⟩,
      ⟨.int 0, .int 0, [-2], .absent, .always⟩]
  initial := .int 0
  final := .int 1
  live := [true, true, true]
  nodup_states := by decide
  initial_mem := by decide
  final_mem := by decide
  fits := by simp [Transition.Fits, Guard.always, threeStates]
  live_length := rfl
  dead_never_fires index t _ dead := by simpa using List.mem_of_getElem? dead

/-- The loop can be taken any number of times. -/
theorem travels_evenLoop (n : Nat) :
    evenLoop.Travels (.int 0) (List.replicate n 0 ++ [1]) (.int 1) := by
  induction n with
  | zero => exact .cons 1 ⟨.int 0, .int 1, [1], .absent, .always⟩ (by decide) (.nil _)
  | succ n ih => exact .cons 0 ⟨.int 0, .int 0, [2], .absent, .always⟩ (by decide) ih

end CounterSystem
end ZeroRun
