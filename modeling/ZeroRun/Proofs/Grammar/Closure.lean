import Mathlib
import ZeroRun.Grammar.Closure
import ZeroRun.Proofs.Grammar.Derivation

/-! Derivation steps of a grammar in which every right-hand side is empty or begins with a terminal.
One round of unfolding is enough: a nonterminal that stands alone is unfolded to its right-hand
sides and to nothing else. -/
namespace ZeroRun.Grammar

variable {τ : Type} {g : Grammar τ}

/-- Is nothing to be unfolded at the left end? -/
def Ready : DerivationState τ → Prop
  | .nonterminal _ :: _ => False
  | _ => True

/-- Every right-hand side is empty or begins with a terminal. -/
def Guarded (g : Grammar τ) : Prop :=
  ∀ rule ∈ g.rules, ∀ body ∈ rule.2, Ready body.symbols

theorem leadingNames_of_ready {state : DerivationState τ} (ready : Ready state)
    (nullable : List Ident) : leadingNames nullable state = [] := by
  match state, ready with
  | [], _ | .terminal _ :: _, _ => rfl

theorem unfold_of_ready {state : DerivationState τ} (ready : Ready state) :
    g.unfold state = [] := by
  match state, ready with
  | [], _ | .terminal _ :: _, _ => rfl

theorem Guarded.ready_of_body (guarded : g.Guarded) {name : Ident} {body : Body τ}
    (rule : body ∈ g.bodies name) : Ready body.symbols := by
  obtain ⟨bodies, rule, inside⟩ := exists_rule_of_body rule
  exact guarded _ rule body inside

/-! ## Unfolding a single nonterminal -/

variable [DecidableEq τ]

/-- States that are all ready are not unfolded any further. -/
theorem growUnfoldings_of_ready {latest : List (DerivationState τ)}
    (ready : ∀ state ∈ latest, Ready state) (levels : Nat) (found : List (DerivationState τ)) :
    g.growUnfoldings levels found latest = found := by
  cases levels with
  | zero => rfl
  | succ levels =>
    have none : latest.flatMap g.unfold = [] :=
      List.flatMap_eq_nil_iff.2 fun state mem => unfold_of_ready (ready state mem)
    simp [growUnfoldings, none, distinct]

theorem unfoldings_of_guarded (guarded : g.Guarded) (name : Ident) :
    g.unfoldings [.nonterminal name] =
      [.nonterminal name] :: distinct ((g.bodies name).map Body.symbols) := by
  have ready : ∀ state ∈ distinct ((g.bodies name).map Body.symbols), Ready state := by
    intro state mem
    obtain ⟨body, rule, rfl⟩ := List.mem_map.1 (mem_distinct.1 mem)
    exact guarded.ready_of_body rule
  have fresh : (distinct (g.unfold [.nonterminal name])).filter
      (· ∉ [[Symbol.nonterminal name]]) = distinct ((g.bodies name).map Body.symbols) := by
    simp only [unfold, List.append_nil]
    refine List.filter_eq_self.2 fun state mem => ?_
    have known := ready state mem
    simp only [List.mem_singleton, decide_eq_true_eq]
    rintro rfl
    exact known
  have levels : ∃ more, g.levelBound [.nonterminal name] = more + 1 := by
    refine Nat.exists_eq_succ_of_ne_zero ?_
    simp [levelBound]
  obtain ⟨more, levels⟩ := levels
  rw [unfoldings, levels, growUnfoldings]
  simp only [List.flatMap_cons, List.flatMap_nil, List.append_nil, fresh]
  split
  · rename_i nothing
    rw [nothing]
  · rw [growUnfoldings_of_ready ready]
    rfl

theorem completes_of_guarded (guarded : g.Guarded) (name : Ident) :
    g.completes [.nonterminal name] = true ↔ ∃ body ∈ g.bodies name, body.symbols = [] := by
  rw [completes, unfoldings_of_guarded guarded]
  simp [mem_distinct]

/-- The steps are the right-hand sides with a terminal, if these stand in order. -/
theorem steps_of_guarded (guarded : g.Guarded) {name : Ident}
    (nodup : ((g.bodies name).map Body.symbols).Nodup)
    (ordered : ((g.bodies name).filterMap (readyStep? ·.symbols)).Pairwise fun a b =>
      g.terminals.idxOf a.1 ≤ g.terminals.idxOf b.1) :
    g.steps [.nonterminal name] = (g.bodies name).filterMap (readyStep? ·.symbols) := by
  rw [steps, unfoldings_of_guarded guarded, distinct_of_nodup nodup]
  simp only [List.filterMap_cons, readyStep?, List.filterMap_map]
  exact List.mergeSort_of_pairwise (by simpa using ordered)

end ZeroRun.Grammar
