import ZeroRun.Proofs.WalkGrammar

/-!
The walks of a counter system as a language. Its words are the walks from the initial to the final
state, and each of them carries a label word. Whether a walk also keeps all counters non-negative
and returns them to zero is not asked here.
-/
namespace ZeroRun

/-- The language of the walks from the initial to the final state. -/
structure WalkLanguage (sys : CounterSystem) where
  grammar : Grammar Int
  built : sys.trimmedWalks = .ok grammar

namespace WalkLanguage
variable {sys : CounterSystem}

/-- The language of a system. -/
def of (sys : CounterSystem) : WalkLanguage sys :=
  match built : sys.trimmedWalks with
  | .ok grammar => ⟨grammar, built⟩
  | .error _ => absurd sys.exists_trimmedWalks (by simp [built])

/-- The language of a system whose states can be written. Their quoted forms give the order of the
nonterminals. -/
def build (sys : CounterSystem) : Except Error (WalkLanguage sys) := do
  let _ ← Ident.sorted sys.states
  return .of sys

/-- The walks of length at most `budget`, by increasing length. Each word of the grammar is followed
through the system. -/
def walksWithin (language : WalkLanguage sys) (budget : Int) (limit : Option Nat := none) :
    Except Error (List (Walk sys)) := do
  let words ← language.grammar.derive budget limit
  words.mapM (Walk.ofWord sys)

/-- The walks of length at most `budget` as words over indices, by increasing length. -/
def deriveWalks (language : WalkLanguage sys) (budget : Int) (limit : Option Nat := none) :
    Except Error (List Word) := do
  let walks ← language.walksWithin budget limit
  return walks.map Walk.word

/-- The label of the transition with an index; there is none for an unknown index. -/
def labelOf (sys : CounterSystem) (index : Int) : Ident :=
  ((itemAt? sys.transitions index).map Transition.label).getD .absent

/-- The labels along a word. -/
def labelsOf (sys : CounterSystem) (word : Word) : List Ident :=
  word.map (labelOf sys)

/-- The length of the last word and the label words of that length so far. -/
structure Heard where
  length : Nat
  labels : List (List Ident)

/-- Hears a word: its labels are told unless a word of this length has told them. -/
def Heard.hear (sys : CounterSystem) (heard : Heard) (word : Word) : Heard × Option (List Ident) :=
  let told := if word.length = heard.length then heard.labels else []
  let labels := labelsOf sys word
  if labels ∈ told then (⟨word.length, told⟩, none)
  else (⟨word.length, told ++ [labels]⟩, some labels)

/-- The distinct label words of the walks of length at most `budget`, by increasing length. -/
def deriveLabels (language : WalkLanguage sys) (budget : Int) (limit : Option Nat := none) :
    Except Error (List (List Ident)) :=
  ((Grammar.Enumeration.fresh budget).collect language.grammar (Heard.hear sys) ⟨0, []⟩ limit).1

/-- The states after a transition with the given label. -/
def labelSteps (language : WalkLanguage sys) (label : Ident)
    (states : List (DerivationState Int)) : List (DerivationState Int) :=
  distinct (states.flatMap fun state =>
    (language.grammar.steps state).filterMap fun (index, next) =>
      if labelOf sys index = label then some next else none)

/-- Does some walk from the initial to the final state carry these labels? -/
def contains (language : WalkLanguage sys) (labels : List Ident) : Except Error Bool := do
  match ← language.grammar.initialState with
  | none => return false
  | some start =>
    let states := labels.foldl (fun states label => language.labelSteps label states) [start]
    return states.any language.grammar.completes

end WalkLanguage
end ZeroRun
