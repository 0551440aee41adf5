import ZeroRun.CounterSystem

/-!
Runs of a counter system, the subject of the whole library: does a system have a run that begins
in the initial state with all counters at zero, and ends in the final state with all counters at
zero again? What decides the question never looks at these definitions; they say what its answers
mean.
-/
namespace ZeroRun

/-- A word leads from a state with counters to a state with counters: each transition begins
where the one before it ends, its guard holds when it fires, and no counter drops below zero. -/
inductive CounterSystem.Leads (sys : CounterSystem) :
    Ident → Counters → Word → Ident → Counters → Prop where
  | nil (state : Ident) (counters : Counters) : sys.Leads state counters [] state counters
  | cons {word : Word} {state : Ident} {after : Counters}
      (index : Nat) (t : Transition) (counters : Counters)
      (present : sys.transitions[index]? = some t)
      (guarded : t.guard.holds counters = true)
      (natural : (counters.add t.effect).isNonneg = true)
      (rest : sys.Leads t.target (counters.add t.effect) word state after) :
      sys.Leads t.source counters ((index : Int) :: word) state after

/-- A run takes at least one transition and leads from zero to zero. -/
def CounterSystem.IsRun (sys : CounterSystem) (word : Word) : Prop :=
  word ≠ [] ∧ sys.Leads sys.initial sys.zero word sys.final sys.zero

/-- The order in which words are looked for: the shorter first, and words of the same length in
the order of their indices. -/
def Shortlex (a b : Word) : Prop :=
  a.length < b.length ∨ (a.length = b.length ∧ a < b)

instance (a b : Word) : Decidable (Shortlex a b) :=
  inferInstanceAs (Decidable (a.length < b.length ∨ (a.length = b.length ∧ a < b)))

/-- The run that comes first. -/
def CounterSystem.IsLeastRun (sys : CounterSystem) (word : Word) : Prop :=
  sys.IsRun word ∧ ∀ other, sys.IsRun other → ¬ Shortlex other word

end ZeroRun
