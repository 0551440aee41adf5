import Mathlib
import ZeroRun.Proofs.LiveWalk
import ZeroRun.Proofs.Residues
import ZeroRun.Search

/-! What a word does to the counters: the sum of the effects of its transitions. A run sums to zero.
No counter of the sum gets further from zero than the length of the word times the largest entry
of an effect. -/
namespace ZeroRun

theorem foldl_max_le_iff {α : Type} (f : α → Nat) (items : List α) (first n : Nat) :
    items.foldl (fun m x => max m (f x)) first ≤ n ↔ first ≤ n ∧ ∀ x ∈ items, f x ≤ n := by
  induction items generalizing first with
  | nil => simp
  | cons x items ih => simp [ih, and_assoc]

namespace Counters

theorem peak_le_iff {a : Counters} {n : Nat} : a.peak ≤ n ↔ ∀ x ∈ a, x.natAbs ≤ n := by
  simp [peak, foldl_max_le_iff]

theorem peak_add_le (a b : Counters) : (a.add b).peak ≤ a.peak + b.peak := by
  refine peak_le_iff.2 fun x mem => ?_
  obtain ⟨i, inside, rfl⟩ := List.getElem_of_mem mem
  rw [length_add, lt_min_iff] at inside
  have left := peak_le_iff.1 le_rfl _ (List.getElem_mem inside.1)
  have right := peak_le_iff.1 le_rfl _ (List.getElem_mem inside.2)
  simp only [add, List.getElem_zipWith]
  omega

@[simp]
theorem peak_zero (n : Nat) : (zero n).peak = 0 :=
  Nat.le_zero.1 (peak_le_iff.2 fun x mem => by simp [zero] at mem; simp [mem.2])

end Counters

namespace CounterSystem
open CandidateSearch (effectOf)
variable {sys : CounterSystem} {u v word : Word}

theorem effectOf_eq {index : Nat} {t : Transition} (present : sys.transitions[index]? = some t) :
    effectOf sys index = t.effect := by
  simp [effectOf, itemAt?, present]

/-- All letters of the word are indices of transitions. -/
def Known (sys : CounterSystem) (word : Word) : Prop :=
  ∀ letter ∈ word, ∃ (index : Nat) (t : Transition),
    letter = index ∧ sys.transitions[index]? = some t

theorem Travels.known {a b : Ident} (travels : sys.Travels a word b) : sys.Known word := by
  intro letter mem
  obtain ⟨index, t, rfl, live⟩ := travels.exists_live letter mem
  exact ⟨index, t, rfl, (mem_liveTransitions.1 live).1⟩

theorem Known.append_iff : sys.Known (u ++ v) ↔ sys.Known u ∧ sys.Known v := by
  simp only [Known, List.mem_append, or_imp, forall_and]

/-- The effects of the transitions of a word. -/
def effects (sys : CounterSystem) (word : Word) : List Counters :=
  word.map (effectOf sys)

theorem Known.width (known : sys.Known word) :
    ∀ e ∈ sys.effects word, e.length = sys.dimension := by
  intro e mem
  obtain ⟨letter, inside, rfl⟩ := List.mem_map.1 mem
  obtain ⟨index, t, rfl, present⟩ := known letter inside
  rw [effectOf_eq present]
  exact (sys.fits t (List.mem_of_getElem? present)).2.2.1

/-- The sum of the effects of a word. -/
def total (sys : CounterSystem) (word : Word) : Counters :=
  Counters.sumFrom sys.zero (sys.effects word)

@[simp]
theorem length_zero : sys.zero.length = sys.dimension :=
  Counters.length_zero _

theorem Known.length_total (known : sys.Known word) : (sys.total word).length = sys.dimension :=
  Counters.length_sumFrom length_zero known.width

theorem total_append (known : sys.Known u) (v : Word) :
    sys.total (u ++ v) = (sys.total u).add (sys.total v) := by
  calc sys.total (u ++ v) = Counters.sumFrom (sys.total u) (sys.effects v) := by
        simp [total, effects, Counters.sumFrom]
    _ = Counters.sumFrom ((sys.total u).add sys.zero) (sys.effects v) := by
        rw [zero, Counters.add_zero known.length_total]
    _ = (sys.total u).add (sys.total v) := Counters.sumFrom_add _ _ _

theorem total_cons {index : Nat} {t : Transition} (present : sys.transitions[index]? = some t)
    (word : Word) : sys.total ((index : Int) :: word) = t.effect.add (sys.total word) := by
  calc sys.total ((index : Int) :: word)
      = Counters.sumFrom (sys.zero.add t.effect) (sys.effects word) := by
        simp [total, effects, Counters.sumFrom, effectOf_eq present]
    _ = Counters.sumFrom (t.effect.add sys.zero) (sys.effects word) := by rw [Counters.add_comm]
    _ = t.effect.add (sys.total word) := Counters.sumFrom_add _ _ _

/-- A word adds its sum to the counters that it leads on. -/
theorem Leads.after_eq {a b : Ident} {before after : Counters}
    (leads : sys.Leads a before word b after) (width : before.length = sys.dimension) :
    after = before.add (sys.total word) := by
  induction leads with
  | nil => exact (Counters.add_zero width).symm
  | cons index t counters present _ _ _ ih =>
    have fit := (sys.fits t (List.mem_of_getElem? present)).2.2.1
    rw [total_cons present, ← Counters.add_assoc]
    exact ih (by simp [width, fit])

theorem IsRun.total_eq (run : sys.IsRun word) : sys.total word = sys.zero := by
  have sum := run.2.after_eq length_zero
  rw [zero, Counters.zero_add run.travels.known.length_total] at sum
  exact sum.symm

theorem sumEffects_eq (known : sys.Known word) : sys.sumEffects word = .ok (sys.total word) := by
  rw [sumEffects, total, effects]
  generalize sys.zero = sum
  induction word generalizing sum with
  | nil => rfl
  | cons letter word ih =>
    obtain ⟨index, t, rfl, present⟩ := known letter List.mem_cons_self
    have found : sys.transitionAt (index : Int) = .ok t := by
      simp [transitionAt, itemAt?, present]
    rw [List.foldlM_cons, found, List.map_cons, effectOf_eq present]
    exact ih (fun letter mem => known letter (List.mem_cons_of_mem _ mem)) _

/-- The largest absolute value of an entry of an effect. -/
def largestEffect (sys : CounterSystem) : Nat :=
  sys.transitions.foldl (fun m t => max m t.effect.peak) 0

theorem peak_effect_le {index : Nat} {t : Transition}
    (present : sys.transitions[index]? = some t) : t.effect.peak ≤ sys.largestEffect :=
  ((foldl_max_le_iff (fun t : Transition => t.effect.peak) _ _ _).1 le_rfl).2 t
    (List.mem_of_getElem? present)

theorem peak_total_le (known : sys.Known word) :
    (sys.total word).peak ≤ word.length * sys.largestEffect := by
  induction word with
  | nil => simp [total, effects, Counters.sumFrom, zero]
  | cons letter word ih =>
    obtain ⟨index, t, rfl, present⟩ := known letter List.mem_cons_self
    have rest := ih fun letter mem => known letter (List.mem_cons_of_mem _ mem)
    have first := peak_effect_le present
    have both := Counters.peak_add_le t.effect (sys.total word)
    rw [total_cons present, List.length_cons, Nat.add_mul]
    omega

end CounterSystem
end ZeroRun
