import ZeroRun.Guard
import ZeroRun.Linear.Oracle
import ZeroRun.Sequence

/-!
Counter systems: a finite control graph whose edges change a vector of counters and may be guarded.
A run starts in the initial state with all counters at zero and never lets a counter drop below
zero.

A system is built from a description that may be wrong in many ways; `CounterSystem.build` refuses
it with the first fault it meets. A transition that can fire on no counter vector is dead. It keeps
its index, and no walk of the system uses it.
-/
namespace ZeroRun

/-- An edge of the control graph. -/
structure Transition where
  source : Ident
  target : Ident
  effect : Counters
  label : Ident
  guard : Guard
deriving DecidableEq

namespace Transition

/-- The edge with label, effect and guard. -/
def toText (t : Transition) : Except Error String := do
  let guard ← if t.guard.isTrivial then pure "" else do
    pure (" [" ++ (← t.guard.toText) ++ "]")
  return (← t.source.plain) ++ " --" ++ (← t.label.plain) ++ ":" ++ (← Text.ints t.effect)
    ++ guard ++ "--> " ++ (← t.target.plain)

/-- The counters from which the transition can fire: its guard holds, and no counter is below
zero before or after. -/
def CanFire (t : Transition) (counters : Counters) : Prop :=
  counters.length = t.effect.length ∧ counters.isNonneg = true ∧
    (counters.add t.effect).isNonneg = true ∧ t.guard.holds counters = true

/-- The constraints on the counters before the transition fires, beyond that they are natural. -/
def firingConstraints (t : Transition) : List Constraint :=
  let n := t.effect.length
  t.guard.constraints ++
    t.effect.zipIdx.map fun (delta, k) => Constraint.unit n k .atLeast (-delta)

/-- May there be a counter vector from which the transition can fire? Without a guard there always
is, otherwise an oracle has to refute it. -/
def isLive (t : Transition) (oracle : Linear.Oracle := Linear.solver) : Bool :=
  t.guard.isTrivial || !oracle.refutes t.effect.length t.firingConstraints

private theorem dot_unit {n k : Nat} {x : Counters} (inside : k < n) :
    Counters.dot ((List.range n).map fun i => if i = k then 1 else 0) x = x.getD k 0 := by
  induction n generalizing k x with
  | zero => omega
  | succ n ih =>
    rw [List.range_succ_eq_map, List.map_cons, List.map_map]
    cases x with
    | nil => simp
    | cons v x =>
      cases k with
      | zero =>
        have rest : (List.range n).map ((fun i => if i = 0 then (1 : Int) else 0) ∘ Nat.succ) =
            Counters.zero n := by
          simp [Counters.zero, Function.comp_def, List.map_const']
        rw [Counters.dot_cons, rest, Counters.dot_comm, Counters.dot_zero]
        simp
      | succ k =>
        have rest := ih (k := k) (x := x) (by omega)
        rw [Counters.dot_cons, List.getD_cons_succ, ← rest]
        simp [Function.comp_def]

/-- A sum is natural if it is so counter by counter. -/
theorem isNonneg_add_iff {a b : Counters} (same : a.length = b.length) :
    (a.add b).isNonneg = true ↔ ∀ k, k < b.length → 0 ≤ a.getD k 0 + b.getD k 0 := by
  rw [Counters.isNonneg_iff]
  constructor
  · intro natural k inside
    rw [← Linear.getD_add same]
    exact natural _ (Linear.getD_mem 0 (by simp [same, inside]))
  · intro natural x mem
    obtain ⟨k, inside, rfl⟩ := List.mem_iff_getElem.1 mem
    have entry := natural k (by rw [Counters.length_add] at inside; omega)
    rwa [← Linear.getD_add same, List.getD_eq_getElem?_getD, List.getElem?_eq_getElem inside,
      Option.getD_some] at entry

theorem holds_firingConstraint {n k : Nat} {delta : Int} {counters : Counters} (inside : k < n) :
    (Constraint.unit n k .atLeast (-delta)).holds counters = true ↔
      0 ≤ counters.getD k 0 + delta := by
  rw [Constraint.unit, Linear.holds_atLeast, dot_unit inside]
  omega

/-- The constraints say that the guard holds, and that no counter is below zero afterwards. -/
theorem holds_firingConstraints_iff {t : Transition} {counters : Counters}
    (width : counters.length = t.effect.length) :
    (∀ c ∈ t.firingConstraints, c.holds counters = true) ↔
      t.guard.holds counters = true ∧ (counters.add t.effect).isNonneg = true := by
  have value : ∀ {k delta}, t.effect[k]? = some delta → t.effect.getD k 0 = delta := by
    intro k delta present
    rw [List.getD_eq_getElem?_getD, present, Option.getD_some]
  rw [firingConstraints, List.forall_mem_append, Guard.holds, List.all_eq_true,
    isNonneg_add_iff width]
  apply and_congr_right
  intro _
  constructor
  · intro holds k inside
    have present := List.getElem?_eq_getElem inside
    have entry : (t.effect[k], k) ∈ t.effect.zipIdx := List.mem_zipIdx_iff_getElem?.2 present
    rw [value present]
    exact (holds_firingConstraint inside).1 (holds _ (List.mem_map_of_mem entry))
  · intro natural c mem
    obtain ⟨⟨delta, k⟩, entry, rfl⟩ := List.mem_map.1 mem
    have present : t.effect[k]? = some delta := List.mem_zipIdx_iff_getElem?.1 entry
    obtain ⟨inside, -⟩ := List.getElem?_eq_some_iff.1 present
    have after := natural k inside
    rw [value present] at after
    exact (holds_firingConstraint inside).2 after

/-- The constraints describe the counters from which a transition fires. -/
theorem isModel_firingConstraints_iff {t : Transition} {counters : Counters} :
    Linear.isModel t.effect.length t.firingConstraints [] counters = true ↔
      t.CanFire counters := by
  rw [Linear.isModel_iff]
  constructor
  · rintro ⟨width, before, holds, -⟩
    obtain ⟨guarded, after⟩ := (holds_firingConstraints_iff width).1 holds
    exact ⟨width, before, after, guarded⟩
  · rintro ⟨width, before, after, guarded⟩
    exact ⟨width, before, (holds_firingConstraints_iff width).2 ⟨guarded, after⟩, by simp⟩

/-- What an oracle takes for dead fires nowhere. -/
theorem not_canFire_of_isLive {t : Transition} {oracle : Linear.Oracle}
    (dead : t.isLive oracle = false) (counters : Counters) : ¬ t.CanFire counters := by
  intro fires
  simp only [isLive, Bool.or_eq_false_iff, Bool.not_eq_false'] at dead
  have none := Linear.Oracle.no_model_of_refutes dead.2 counters
  rw [isModel_firingConstraints_iff.2 fires] at none
  cases none

/-- Do the states exist and have all vectors the length of the dimension? -/
def Fits (states : List Ident) (dimension : Nat) (t : Transition) : Prop :=
  t.source ∈ states ∧ t.target ∈ states ∧ t.effect.length = dimension ∧
    ∀ c ∈ t.guard.constraints, c.dimension = dimension

instance (states : List Ident) (dimension : Nat) (t : Transition) :
    Decidable (t.Fits states dimension) := by
  unfold Fits; infer_instance

end Transition

/-- The description of a transition. The effect is not checked yet, and an absent label stands
for a label made from the index. -/
structure TransitionDraft where
  source : Ident
  target : Ident
  effect : Datum
  label : Ident
  guard : Guard

/-- The description of a system. -/
structure SystemDraft where
  states : List Ident
  dimension : Datum
  transitions : List TransitionDraft
  initial : Ident
  final : Ident

/-- A counter system. -/
structure CounterSystem where
  states : List Ident
  dimension : Nat
  /-- The dimension as it was given: a number, or a truth value that counts as one. -/
  declaredDimension : Datum
  transitions : List Transition
  initial : Ident
  final : Ident
  /-- Which transitions are live, index by index. -/
  live : List Bool
  nodup_states : states.Nodup
  initial_mem : initial ∈ states
  final_mem : final ∈ states
  fits : ∀ t ∈ transitions, t.Fits states dimension
  live_length : live.length = transitions.length
  dead_never_fires : ∀ (index : Nat) (t : Transition), transitions[index]? = some t →
    live[index]? = some false → ∀ counters, ¬ t.CanFire counters

/-- The number of counters that a document value stands for. -/
def dimensionOf (value : Datum) : Except Error Nat :=
  match value with
  | .bool b => .ok (if b then 1 else 0)
  | .int n => if 0 ≤ n then .ok n.toNat else .error (.badDimension value)
  | _ => .error (.badDimension value)

/-- The entries of a value that can be gone through one by one. A mapping shows its keys and a
text its characters. -/
def entriesOf? : Datum → Option (List Datum)
  | .list items => some items
  | .text s => some (s.toList.map fun c => .text (String.singleton c))
  | .map entries => some (entries.map Prod.fst)
  | _ => none

/-- An entry of an effect; only whole numbers will do. -/
def effectEntry (index : Nat) : Datum → Except Error Int
  | .int n => .ok n
  | entry => .error (.effectEntry index entry)

namespace TransitionDraft

/-- The effect as a counter vector. -/
def effectVector (index : Nat) (draft : TransitionDraft) : Except Error Counters :=
  match entriesOf? draft.effect with
  | none => .error (.effectNotSequence index draft.effect)
  | some entries => entries.mapM (effectEntry index)

/-- The label, made from the index if none is given. -/
def labelAt (index : Nat) (draft : TransitionDraft) : Ident :=
  if draft.label = .absent then .text ("t" ++ toString index) else draft.label

/-- The checked transition, or the first fault: undeclared states, then the effect, then the
guard. -/
def check (states : List Ident) (dimension : Nat) (declared : Datum) (index : Nat)
    (draft : TransitionDraft) : Except Error { t : Transition // t.Fits states dimension } :=
  if hs : draft.source ∈ states then
    if ht : draft.target ∈ states then
      match draft.effectVector index with
      | .error e => .error e
      | .ok effect =>
        if he : effect.length = dimension then
          match hg : draft.guard.constraints.find? (fun c => c.dimension ≠ dimension) with
          | some c => .error (.guardLength index c.dimension declared)
          | none =>
            .ok ⟨⟨draft.source, draft.target, effect, draft.labelAt index, draft.guard⟩,
              hs, ht, he, by simpa using hg⟩
        else .error (.effectLength index effect.length declared)
    else .error (.undeclaredTarget index draft.target)
  else .error (.undeclaredSource index draft.source)

/-- Checks descriptions from an index on. -/
def checkAll (states : List Ident) (dimension : Nat) (declared : Datum) :
    Nat → List TransitionDraft → Except Error (List { t : Transition // t.Fits states dimension })
  | _, [] => .ok []
  | index, draft :: drafts => do
    let t ← draft.check states dimension declared index
    let ts ← checkAll states dimension declared (index + 1) drafts
    return t :: ts

end TransitionDraft

namespace CounterSystem

/-- Builds a system from its description. The dimension is looked at first, then the initial and
the final state, then the transitions in order. An oracle says which of them are dead. -/
def build (draft : SystemDraft) (oracle : Linear.Oracle := Linear.solver) :
    Except Error CounterSystem :=
  match dimensionOf draft.dimension with
  | .error e => .error e
  | .ok dimension =>
    let states := distinct draft.states
    if hi : draft.initial ∈ states then
      if hf : draft.final ∈ states then
        match TransitionDraft.checkAll states dimension draft.dimension 0 draft.transitions with
        | .error e => .error e
        | .ok transitions =>
          .ok {
            states := states
            dimension := dimension
            declaredDimension := draft.dimension
            transitions := transitions.map Subtype.val
            initial := draft.initial
            final := draft.final
            live := (transitions.map Subtype.val).map (·.isLive oracle)
            nodup_states := nodup_distinct _
            initial_mem := hi
            final_mem := hf
            fits := by
              intro t ht
              obtain ⟨s, -, rfl⟩ := List.mem_map.1 ht
              exact s.2
            live_length := by simp
            dead_never_fires := by
              intro index t present dead
              rw [List.getElem?_map, present] at dead
              exact Transition.not_canFire_of_isLive (Option.some.inj dead) }
      else .error (.undeclaredFinal draft.final)
    else .error (.undeclaredInitial draft.initial)

/-- The transition at an index; a negative index counts from the end. -/
def transitionAt (sys : CounterSystem) (index : Int) : Except Error Transition :=
  match itemAt? sys.transitions index with
  | some t => .ok t
  | none => .error .indexOutOfRange

/-- The vector with all counters at zero. -/
def zero (sys : CounterSystem) : Counters :=
  Counters.zero sys.dimension

/-- Is the transition at this index not dead? -/
def isLive (sys : CounterSystem) (index : Nat) : Bool :=
  sys.live.getD index true

/-- The live transitions with their indices, in order. -/
def liveTransitions (sys : CounterSystem) : List (Nat × Transition) :=
  (sys.transitions.zip sys.live).zipIdx.filterMap fun ((t, live), i) =>
    if live then some (i, t) else none

/-- The indices of the live transitions. -/
def liveIndices (sys : CounterSystem) : List Nat :=
  sys.liveTransitions.map Prod.fst

/-- The indices of the dead transitions. -/
def deadIndices (sys : CounterSystem) : List Nat :=
  (List.range sys.transitions.length).filter fun i => !sys.isLive i

/-- The indices of the live transitions that leave a state, in order. -/
def outgoing (sys : CounterSystem) (state : Ident) : List Nat :=
  (sys.liveTransitions.filter fun p => p.2.source = state).map Prod.fst

/-- The labels in the order of their first use. -/
def alphabet (sys : CounterSystem) : List Ident :=
  distinct (sys.transitions.map Transition.label)

/-- Does the guard of the transition at an index hold? -/
def guardHolds (sys : CounterSystem) (index : Int) (counters : Counters) : Except Error Bool := do
  let t ← sys.transitionAt index
  return t.guard.holds counters

/-- The sum of the effects of the transitions of a word. -/
def sumEffects (sys : CounterSystem) (word : Word) : Except Error Counters :=
  word.foldlM (fun total index => do
    let t ← sys.transitionAt index
    return total.add t.effect) sys.zero

/-- A line that sums the system up. -/
def toText (sys : CounterSystem) : Except Error String := do
  return "VASS(states=" ++ toString sys.states.length
    ++ ", dimension=" ++ (← Error.written sys.declaredDimension.plain?)
    ++ ", transitions=" ++ toString sys.transitions.length
    ++ ", initial=" ++ (← sys.initial.quoted) ++ ", final=" ++ (← sys.final.quoted) ++ ")"

end CounterSystem
end ZeroRun
