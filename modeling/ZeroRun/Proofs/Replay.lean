import Mathlib
import ZeroRun.Proofs.Effects
import ZeroRun.Replay

/-! The exact replay of a walk. It meets no block exactly if all transitions fire one after another,
and no run begins with the transitions up to a block. The counters of a replay stay within the
length of the walk times the largest entry of an effect. -/
namespace ZeroRun

/-- The transitions fire one after another: each guard holds when its transition fires, and no
counter drops below zero. -/
def Fires : Counters → List Transition → Prop
  | _, [] => True
  | counters, t :: ts =>
    t.guard.holds counters = true ∧ (counters.add t.effect).isNonneg = true ∧
      Fires (counters.add t.effect) ts

theorem fires_concat {counters : Counters} {ts : List Transition} {t : Transition} :
    Fires counters (ts ++ [t]) ↔
      Fires counters ts ∧ Fires (Counters.sumFrom counters (ts.map Transition.effect)) [t] := by
  induction ts generalizing counters with
  | nil => simp [Fires, Counters.sumFrom]
  | cons first ts ih =>
    simp only [List.cons_append, Fires, ih, List.map_cons, Counters.sumFrom, List.foldl_cons]
    tauto

theorem Fires.take {counters : Counters} {ts : List Transition} (fires : Fires counters ts)
    (k : Nat) : Fires counters (ts.take k) := by
  induction ts generalizing counters k with
  | nil => simp [Fires]
  | cons t ts ih =>
    cases k with
    | zero => trivial
    | succ k =>
      obtain ⟨guarded, natural, rest⟩ := fires
      exact ⟨guarded, natural, ih rest k⟩

namespace CounterSystem
variable {sys : CounterSystem} {a b : Ident} {before after : Counters}
  {steps : List (Nat × Transition)}

/-- The word can be taken from the start: each guard holds when its transition fires, and no counter
drops below zero. -/
def Passes (sys : CounterSystem) (word : Word) : Prop :=
  ∃ state counters, sys.Leads sys.initial sys.zero word state counters

/-- The stem is the shortest beginning of the word that cannot be taken. -/
structure BreaksAt (sys : CounterSystem) (stem word : Word) : Prop where
  begins : stem <+: word
  breaks : ¬ sys.Passes stem
  shortest : ∀ shorter, shorter <+: stem → shorter ≠ stem → sys.Passes shorter

/-- The word of a list of indexed transitions. -/
def spell (steps : List (Nat × Transition)) : Word :=
  steps.map fun p => (p.1 : Int)

theorem Chain.present (chain : sys.Chain a steps) :
    ∀ p ∈ steps, sys.transitions[p.1]? = some p.2 := by
  induction steps generalizing a with
  | nil => simp
  | cons p steps ih =>
    obtain ⟨present, -, rest⟩ := chain
    intro q mem
    rcases List.mem_cons.1 mem with rfl | mem
    · exact present
    · exact ih rest q mem

theorem Chain.known (chain : sys.Chain a steps) : sys.Known (spell steps) := by
  intro letter mem
  obtain ⟨p, inside, rfl⟩ := List.mem_map.1 mem
  exact ⟨p.1, p.2, rfl, chain.present p inside⟩

theorem effects_spell (present : ∀ p ∈ steps, sys.transitions[p.1]? = some p.2) :
    sys.effects (spell steps) = (steps.map Prod.snd).map Transition.effect := by
  simp only [effects, spell, List.map_map]
  exact List.map_congr_left fun p mem => effectOf_eq (present p mem)

/-- Transitions that a word leads along fire one after another. -/
theorem Leads.fires (present : ∀ p ∈ steps, sys.transitions[p.1]? = some p.2)
    (leads : sys.Leads a before (spell steps) b after) : Fires before (steps.map Prod.snd) := by
  induction steps generalizing a before with
  | nil => trivial
  | cons p steps ih =>
    generalize spelled : spell (p :: steps) = word at leads
    cases leads with
    | nil => cases spelled
    | cons index t _ known guarded natural rest =>
      obtain ⟨same, rfl⟩ := List.cons.inj spelled
      have here := present p List.mem_cons_self
      rw [Int.ofNat_inj.1 same, known] at here
      obtain rfl := Option.some.inj here
      exact ⟨guarded, natural, ih (fun q mem => present q (List.mem_cons_of_mem _ mem)) rest⟩

/-- The first part of a word that leads somewhere leads somewhere. -/
theorem Leads.split {u v : Word} (leads : sys.Leads a before (u ++ v) b after) :
    ∃ state counters, sys.Leads a before u state counters := by
  induction u generalizing a before with
  | nil => exact ⟨a, before, .nil _ _⟩
  | cons letter u ih =>
    cases leads with
    | cons index t _ present guarded natural rest =>
      obtain ⟨state, counters, rest⟩ := ih rest
      exact ⟨state, counters, .cons index t _ present guarded natural rest⟩

theorem BreaksAt.ne_nil {stem word : Word} (broken : sys.BreaksAt stem word) : stem ≠ [] := by
  rintro rfl
  exact broken.breaks ⟨_, _, .nil _ _⟩

/-- No run begins with a stem that cannot be taken. -/
theorem BreaksAt.not_prefix {stem word run : Word} (broken : sys.BreaksAt stem word)
    (isRun : sys.IsRun run) : ¬ stem <+: run := by
  rintro ⟨rest, rfl⟩
  exact broken.breaks isRun.2.split

theorem Chain.take (chain : sys.Chain a steps) (i : Nat) : sys.Chain a (steps.take i) := by
  induction steps generalizing a i with
  | nil => simp [Chain]
  | cons p steps ih =>
    cases i with
    | zero => trivial
    | succ i =>
      obtain ⟨present, starts, rest⟩ := chain
      exact ⟨present, starts, ih rest i⟩

/-- The state after the steps, which begin in `a`. -/
def arrival (a : Ident) (steps : List (Nat × Transition)) : Ident :=
  (steps.getLast?.map fun p => p.2.target).getD a

theorem arrival_cons (a : Ident) (p : Nat × Transition) (steps : List (Nat × Transition)) :
    arrival a (p :: steps) = arrival p.2.target steps := by
  rw [arrival, arrival, List.getLast?_cons]
  cases steps.getLast? <;> rfl

/-- Steps whose transitions fire lead to where they arrive. -/
theorem Chain.leads (chain : sys.Chain a steps) (fires : Fires before (steps.map Prod.snd)) :
    sys.Leads a before (spell steps) (arrival a steps)
      (Counters.sumFrom before ((steps.map Prod.snd).map Transition.effect)) := by
  induction steps generalizing a before with
  | nil => exact .nil _ _
  | cons p steps ih =>
    obtain ⟨present, rfl, rest⟩ := chain
    obtain ⟨guarded, natural, fires⟩ := fires
    rw [arrival_cons]
    exact .cons p.1 p.2 before present guarded natural (ih rest fires)

/-- Steps along live transitions arrive where their word goes. -/
theorem Chain.arrival_eq (chain : sys.Chain a steps) (travels : sys.Travels a (spell steps) b) :
    arrival a steps = b := by
  induction steps generalizing a with
  | nil => exact (Travels.nil_iff.1 travels).symm
  | cons p steps ih =>
    obtain ⟨present, -, rest⟩ := chain
    obtain ⟨index, t, same, live⟩ := travels.exists_live _ List.mem_cons_self
    have here := (mem_liveTransitions.1 live).1
    rw [← Int.ofNat_inj.1 same, present] at here
    obtain rfl := Option.some.inj here
    rw [arrival_cons]
    exact ih rest ((Travels.cons_iff (Int.ofNat_inj.1 same ▸ live)).1 travels).2

end CounterSystem

/-! ## Steps of a replay -/

namespace Replay
variable {sys : CounterSystem} {ts : List Transition} {t : Transition}

theorem ofTransitions_concat (ts : List Transition) (t : Transition) :
    ofTransitions sys (ts ++ [t]) = (ofTransitions sys ts).step t := by
  simp [ofTransitions]

theorem length_earlier (ts : List Transition) :
    (ofTransitions sys ts).earlier.length = ts.length := by
  induction ts using List.reverseRecOn with
  | nil => rfl
  | append_singleton ts t ih => rw [ofTransitions_concat]; simp [step, ih]

/-- The net effect is the sum of the effects. -/
theorem netEffect_eq (ts : List Transition) :
    (ofTransitions sys ts).netEffect = Counters.sumFrom sys.zero (ts.map Transition.effect) := by
  induction ts using List.reverseRecOn with
  | nil => rfl
  | append_singleton ts t ih =>
    rw [netEffect] at ih
    rw [ofTransitions_concat, netEffect, step, ih]
    simp [Counters.sumFrom]

theorem isSome_findIdx?_neg (counters : Counters) :
    (counters.findIdx? (· < 0)).isSome = !counters.isNonneg := by
  rw [List.findIdx?_isSome, Counters.isNonneg, Bool.eq_iff_iff]
  simp

/-- The block after one more step. Once there is one it stays; before, a step makes one exactly if
its transition does not fire. -/
theorem firstBlock_step {replay : Replay}
    (early : ∀ k, replay.firstBlock = some k → k ≤ replay.earlier.length) (t : Transition) :
    (replay.step t).firstBlock =
      match replay.firstBlock with
      | some k => some k
      | none =>
        if t.guard.holds replay.current && (replay.current.add t.effect).isNonneg then none
        else some (replay.earlier.length + 1) := by
  obtain ⟨current, earlier, negative, counter, failure⟩ := replay
  simp only [firstBlock, step, isSome_findIdx?_neg] at early ⊢
  cases negative with
  | none =>
    cases failure with
    | none =>
      cases t.guard.holds current <;> cases (current.add t.effect).isNonneg <;> simp
    | some b =>
      have := early b rfl
      cases (current.add t.effect).isNonneg <;> simp
      omega
  | some a =>
    cases failure with
    | none =>
      have := early a rfl
      cases t.guard.holds current <;> simp
      omega
    | some b => simp

theorem fires_single {counters : Counters} : Fires counters [t] ↔
    (t.guard.holds counters && (counters.add t.effect).isNonneg) = true := by
  simp [Fires]

/-- If a replay meets no block, the transitions fire. Those up to a block do not, but fewer do. -/
theorem firstBlock_spec (ts : List Transition) :
    ((ofTransitions sys ts).firstBlock = none → Fires sys.zero ts) ∧
      ∀ k, (ofTransitions sys ts).firstBlock = some k →
        0 < k ∧ k ≤ ts.length ∧ ¬ Fires sys.zero (ts.take k) ∧
          ∀ i < k, Fires sys.zero (ts.take i) := by
  induction ts using List.reverseRecOn with
  | nil => exact ⟨fun _ => trivial, fun k block => by cases block⟩
  | append_singleton ts t ih =>
    have early : ∀ k, (ofTransitions sys ts).firstBlock = some k →
        k ≤ (ofTransitions sys ts).earlier.length := by
      intro k block
      rw [length_earlier]
      exact (ih.2 k block).2.1
    have sum : (ofTransitions sys ts).current =
        Counters.sumFrom sys.zero (ts.map Transition.effect) := netEffect_eq ts
    rw [ofTransitions_concat, firstBlock_step early, length_earlier, sum]
    cases before : (ofTransitions sys ts).firstBlock with
    | some k =>
      obtain ⟨pos, le, blocked, passes⟩ := ih.2 k before
      refine ⟨fun none => (by cases none), fun j block => ?_⟩
      obtain rfl := Option.some.inj block
      refine ⟨pos, by simp; omega, by rwa [List.take_append_of_le_length le], fun i less => ?_⟩
      rw [List.take_append_of_le_length (less.le.trans le)]
      exact passes i less
    | none =>
      have fires := ih.1 before
      dsimp only
      split
      · rename_i last
        exact ⟨fun _ => fires_concat.2 ⟨fires, fires_single.2 last⟩, fun k block => by cases block⟩
      · rename_i last
        refine ⟨fun none => (by cases none), fun k block => ?_⟩
        obtain rfl := Option.some.inj block
        refine ⟨Nat.succ_pos _, by simp, fun all => last ?_, fun i less => ?_⟩
        · rw [List.take_of_length_le (by simp)] at all
          exact fires_single.1 (fires_concat.1 all).2
        · rw [List.take_append_of_le_length (Nat.lt_succ_iff.1 less)]
          exact fires.take i

theorem firstBlock_eq_none_iff {ts : List Transition} :
    (ofTransitions sys ts).firstBlock = none ↔ Fires sys.zero ts := by
  refine ⟨(firstBlock_spec ts).1, fun fires => ?_⟩
  cases block : (ofTransitions sys ts).firstBlock with
  | none => rfl
  | some k => exact absurd (fires.take k) ((firstBlock_spec ts).2 k block).2.2.1

/-! ## Peaks -/

/-- The vectors of a replay are the sums of the first effects. -/
theorem exists_take_of_mem_vectors {ts : List Transition} {v : Counters}
    (mem : v ∈ (ofTransitions sys ts).vectors) :
    ∃ i ≤ ts.length, v = Counters.sumFrom sys.zero ((ts.take i).map Transition.effect) := by
  induction ts using List.reverseRecOn with
  | nil =>
    refine ⟨0, le_rfl, ?_⟩
    simpa [vectors, ofTransitions, Counters.sumFrom] using mem
  | append_singleton ts t ih =>
    have sum : (ofTransitions sys (ts ++ [t])).netEffect = _ := netEffect_eq _
    rw [ofTransitions_concat] at mem sum
    simp only [vectors, List.mem_reverse, List.mem_cons] at mem ih
    rcases mem with rfl | old
    · exact ⟨(ts ++ [t]).length, le_rfl, by rw [List.take_length]; exact sum⟩
    · obtain ⟨i, le, same⟩ := ih (by simpa [step] using old)
      exact ⟨i, by simp; omega, by rwa [List.take_append_of_le_length le]⟩

theorem traceFrom_concat (counters : Counters) (effects : List Counters) (effect : Counters) :
    Walk.traceFrom counters (effects ++ [effect]) =
      Walk.traceFrom counters effects ++ [(Counters.sumFrom counters effects).add effect] := by
  induction effects generalizing counters with
  | nil => rfl
  | cons first effects ih =>
    rw [List.cons_append, Walk.traceFrom, Walk.traceFrom, ih, List.cons_append]
    rfl

/-- The replay keeps the counters that the effects run through. -/
theorem vectors_eq (ts : List Transition) :
    (ofTransitions sys ts).vectors = Walk.traceFrom sys.zero (ts.map Transition.effect) := by
  induction ts using List.reverseRecOn with
  | nil => rfl
  | append_singleton ts t ih =>
    have sum : (ofTransitions sys ts).current = _ := netEffect_eq ts
    rw [List.map_append, List.map_singleton, traceFrom_concat, ← ih, ← sum, ofTransitions_concat]
    simp [vectors, step]

theorem current_mem_vectors (replay : Replay) : replay.netEffect ∈ replay.vectors := by
  simp [vectors, netEffect]

theorem peak_le_iff {replay : Replay} {n : Nat} :
    replay.peak ≤ n ↔ ∀ v ∈ replay.vectors, v.peak ≤ n := by
  rw [peak, foldl_max_le_iff Counters.peak]
  simp

end Replay

/-! ## Walks -/

namespace Walk
open CounterSystem (spell)
variable {sys : CounterSystem}

/-- A word along live transitions is a walk. -/
theorem ofWord_of_travels {word : Word} {state : Ident}
    (travels : sys.Travels sys.initial word state) :
    ∃ walk, ofWord sys word = .ok walk ∧ walk.word = word := by
  suffices followed : ∀ {a word b}, sys.Travels a word b → ∀ position,
      ∃ steps, follow sys position a word = .ok steps ∧ spell steps.1 = word by
    obtain ⟨steps, ok, spelled⟩ := followed travels 0
    exact ⟨⟨steps.1, steps.2⟩, by rw [ofWord, ok], spelled⟩
  intro a word b travels
  induction travels with
  | nil => exact fun position => ⟨⟨[], trivial⟩, rfl, rfl⟩
  | cons index t live _ ih =>
    intro position
    obtain ⟨steps, ok, rfl⟩ := ih (position + 1)
    have present := (CounterSystem.mem_liveTransitions.1 live).1
    rw [follow, if_neg (by omega)]
    split
    · rename_i missing
      rw [Int.toNat_natCast, present] at missing
      cases missing
    · rename_i found
      rw [Int.toNat_natCast, present] at found
      obtain rfl := Option.some.inj found
      rw [dif_pos rfl, ok]
      exact ⟨_, rfl, by simp [spell]⟩

variable (walk : Walk sys)

theorem word_eq_spell : walk.word = spell walk.steps := rfl

theorem known_word : sys.Known walk.word :=
  walk.valid.known

theorem netEffect_replay : walk.replay.netEffect = sys.total walk.word := by
  rw [replay, Replay.netEffect_eq, CounterSystem.total, word_eq_spell,
    CounterSystem.effects_spell walk.valid.present]

theorem netEffect_eq_total : walk.netEffect = sys.total walk.word := by
  rw [← netEffect_replay, replay, Replay.netEffect_eq, List.map_map]
  rfl

theorem peak_replay : walk.replay.peak = walk.peak := by
  rw [Replay.peak, replay, Replay.vectors_eq, List.map_map]
  rfl

theorem peak_le : walk.peak ≤ walk.word.length * sys.largestEffect := by
  rw [← peak_replay]
  refine Replay.peak_le_iff.2 fun v mem => ?_
  obtain ⟨i, le, rfl⟩ := Replay.exists_take_of_mem_vectors mem
  have chain := walk.valid.take i
  have bound := CounterSystem.peak_total_le chain.known
  rw [CounterSystem.total, CounterSystem.effects_spell chain.present, List.map_take] at bound
  refine bound.trans (Nat.mul_le_mul_right _ ?_)
  simp [spell, word]

/-- Two walks with the same word take the same steps. -/
theorem eq_of_word_eq {walk other : Walk sys} (same : walk.word = other.word) : walk = other := by
  have steps : walk.steps = other.steps := by
    have indices : walk.steps.map Prod.fst = other.steps.map Prod.fst := by
      apply List.map_injective_iff.2 Int.ofNat_injective
      simpa [word, Function.comp_def] using same
    apply List.ext_getElem (by simpa using congrArg List.length indices)
    intro i left right
    have index : walk.steps[i].1 = other.steps[i].1 := by
      simpa [left, right] using congrArg (·[i]?) indices
    have first := walk.valid.present _ (List.getElem_mem left)
    have second := other.valid.present _ (List.getElem_mem right)
    rw [index, second] at first
    exact Prod.ext index (Option.some.inj first).symm
  obtain ⟨_, _⟩ := walk
  obtain ⟨_, _⟩ := other
  subst steps
  rfl

theorem take_word (i : Nat) : walk.word.take i = spell (walk.steps.take i) := by
  rw [word_eq_spell, spell, spell, List.map_take]

/-- The walk can be taken up to a place exactly if its transitions fire up to there. -/
theorem passes_take_iff {i : Nat} :
    sys.Passes (walk.word.take i) ↔ Fires sys.zero ((walk.steps.map Prod.snd).take i) := by
  rw [take_word, ← List.map_take]
  constructor
  · rintro ⟨state, counters, leads⟩
    exact leads.fires (walk.valid.take i).present
  · intro fires
    exact ⟨_, _, (walk.valid.take i).leads fires⟩

/-- The walk breaks at its first block. -/
theorem breaksAt_of_firstBlock {block : Nat} (blocked : walk.replay.firstBlock = some block) :
    sys.BreaksAt (walk.word.take block) walk.word := by
  obtain ⟨-, -, stuck, passes⟩ := (Replay.firstBlock_spec _).2 block blocked
  refine ⟨List.take_prefix _ _, mt walk.passes_take_iff.1 stuck, fun shorter begins proper => ?_⟩
  have short : shorter.length < block := by
    have bound := begins.length_le
    rw [List.length_take] at bound
    apply lt_of_le_of_ne (by omega)
    intro full
    exact proper (begins.eq_of_length (by rw [List.length_take]; omega))
  rw [List.prefix_iff_eq_take.1 begins, List.take_take, min_eq_left short.le]
  exact walk.passes_take_iff.2 (passes _ short)

/-- The walk leads back to zero exactly if it meets no block and its effects sum to zero. -/
theorem leads_zero_iff :
    sys.Leads sys.initial sys.zero walk.word walk.last sys.zero ↔
      walk.replay.firstBlock = none ∧ walk.replay.netEffect = sys.zero := by
  rw [replay, Replay.firstBlock_eq_none_iff]
  constructor
  · intro leads
    have sum := leads.after_eq CounterSystem.length_zero
    rw [CounterSystem.zero, Counters.zero_add walk.known_word.length_total] at sum
    refine ⟨leads.fires walk.valid.present, ?_⟩
    rw [← replay, netEffect_replay]
    exact sum.symm
  · rintro ⟨fires, balanced⟩
    have leads := walk.valid.leads fires
    rwa [← Replay.netEffect_eq, balanced] at leads

/-- A walk along live transitions ends where its word goes. -/
theorem last_eq_of_travels {state : Ident} (travels : sys.Travels sys.initial walk.word state) :
    walk.last = state :=
  walk.valid.arrival_eq travels

end Walk
end ZeroRun
