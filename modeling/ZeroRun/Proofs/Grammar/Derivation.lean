import Mathlib
import ZeroRun.Grammar.Basic
import ZeroRun.Proofs.Sequence

/-! Derivations of a grammar, as a relation between derivation states and the words they derive.
It says what the language of a grammar is, and knows nothing of how words are looked for. -/
namespace ZeroRun.Grammar

variable {τ : Type}

theorem exists_rule_of_body {g : Grammar τ} {name : Ident} {body : Body τ}
    (rule : body ∈ g.bodies name) : ∃ bodies, (name, bodies) ∈ g.rules ∧ body ∈ bodies := by
  rw [bodies] at rule
  cases found : g.rules.lookup name with
  | none => simp [found] at rule
  | some bodies => exact ⟨bodies, mem_of_lookup_eq_some found, by simpa [found] using rule⟩

/-- The symbols derive the word, the leftmost symbol first. -/
inductive Derives (g : Grammar τ) : DerivationState τ → List τ → Prop where
  | nil : g.Derives [] []
  | emit {rest : DerivationState τ} {word : List τ} (t : τ) (tail : g.Derives rest word) :
      g.Derives (.terminal t :: rest) (t :: word)
  | unfold {rest : DerivationState τ} {word : List τ} {name : Ident} {body : Body τ}
      (rule : body ∈ g.bodies name) (inner : g.Derives (body.symbols ++ rest) word) :
      g.Derives (.nonterminal name :: rest) word

namespace Derives
variable {g : Grammar τ} {a b : DerivationState τ} {u v word : List τ}

theorem append (left : g.Derives a u) (right : g.Derives b v) : g.Derives (a ++ b) (u ++ v) := by
  induction left with
  | nil => exact right
  | emit t _ ih => exact .emit t ih
  | unfold rule _ ih => exact .unfold rule (by simpa using ih)

/-- A word of a state falls into words of its parts. -/
theorem split (derives : g.Derives (a ++ b) word) :
    ∃ u v, word = u ++ v ∧ g.Derives a u ∧ g.Derives b v := by
  generalize whole : a ++ b = state at derives
  induction derives generalizing a with
  | nil =>
    obtain ⟨rfl, rfl⟩ := List.append_eq_nil_iff.1 whole
    exact ⟨[], [], rfl, .nil, .nil⟩
  | emit t tail ih =>
    cases a with
    | nil => exact ⟨[], _, rfl, .nil, by subst whole; exact .emit t tail⟩
    | cons symbol a =>
      obtain ⟨rfl, rest⟩ := List.cons.inj whole
      obtain ⟨u, v, rfl, left, right⟩ := ih rest
      exact ⟨t :: u, v, rfl, .emit t left, right⟩
  | unfold rule inner ih =>
    cases a with
    | nil => exact ⟨[], _, rfl, .nil, by subst whole; exact .unfold rule inner⟩
    | cons symbol a =>
      obtain ⟨rfl, rest⟩ := List.cons.inj whole
      subst rest
      obtain ⟨u, v, rfl, left, right⟩ := ih (List.append_assoc _ _ _)
      exact ⟨u, v, rfl, .unfold rule left, right⟩

end Derives
end ZeroRun.Grammar
