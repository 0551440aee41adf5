import Mathlib
import ZeroRun.Proofs.Grammar.Trimmed
import ZeroRun.Proofs.LiveWalk
import ZeroRun.WalkLanguage

/-! The trimmed grammar of the walks, taken as an automaton. Its derivations stand in one state of
the control graph at a time. From a state that lies on a walk to the final one, the steps are the
live transitions that still lead to the final state, in the order of their indices. -/
namespace ZeroRun
open Relation (ReflTransGen)

/-- In an ascending list the places ascend with the items. -/
theorem idxOf_le_idxOf {items : List Int} (ascending : items.Pairwise (· < ·)) {a b : Int}
    (first : a ∈ items) (second : b ∈ items) (less : a < b) : items.idxOf a ≤ items.idxOf b := by
  by_contra later
  have order := List.pairwise_iff_getElem.1 ascending (items.idxOf b) (items.idxOf a)
    (List.idxOf_lt_length_of_mem second) (List.idxOf_lt_length_of_mem first) (not_le.1 later)
  rw [List.getElem_idxOf, List.getElem_idxOf] at order
  omega

namespace CounterSystem
variable {sys : CounterSystem} {state : Ident} {word : Word}

/-- Some walk leads from the state to the final one. -/
def CanFinish (sys : CounterSystem) (state : Ident) : Prop :=
  ∃ word, sys.Travels state word sys.final

/-- The state lies on a walk from the initial to the final one. -/
def Useful (sys : CounterSystem) (state : Ident) : Prop :=
  (∃ word, sys.Travels sys.initial word state) ∧ sys.CanFinish state

theorem Useful.mem (useful : sys.Useful state) : state ∈ sys.states := by
  obtain ⟨⟨word, travels⟩, -⟩ := useful
  exact travels.target_mem sys.initial_mem

theorem Useful.canFinish_initial (useful : sys.Useful state) : sys.CanFinish sys.initial := by
  obtain ⟨⟨u, before⟩, v, after⟩ := useful
  exact ⟨u ++ v, before.append after⟩

theorem useful_initial (finishes : sys.CanFinish sys.initial) : sys.Useful sys.initial :=
  ⟨⟨[], .nil _⟩, finishes⟩

theorem Useful.next {index : Nat} {t : Transition} (useful : sys.Useful t.source)
    (live : (index, t) ∈ sys.liveTransitions) (finishes : sys.CanFinish t.target) :
    sys.Useful t.target := by
  obtain ⟨⟨u, before⟩, -⟩ := useful
  exact ⟨⟨u ++ [(index : Int)], before.append (.cons index t live (.nil _))⟩, finishes⟩

/-! ## Before trimming -/

theorem built_foldl_addNonterminal {g : Grammar Int} (built : g.Built) (states : List Ident) :
    (states.foldl (fun g state => g.addNonterminal (walksFrom state)) g).Built := by
  induction states generalizing g with
  | nil => exact built
  | cons state states ih => exact ih (built.nonterminal (walksFrom state))

theorem built_foldlM_addProduction {g next : Grammar Int} (built : g.Built)
    {ps : List (Nat × Transition)}
    (done : ps.foldlM (fun g p => g.addProduction (walkEdge p)) g = .ok next) : next.Built := by
  induction ps generalizing g with
  | nil =>
    cases done
    exact built
  | cons p ps ih =>
    rw [List.foldlM_cons] at done
    cases added : g.addProduction (walkEdge p) with
    | error e =>
      rw [added] at done
      cases done
    | ok between =>
      rw [added] at done
      exact ih (built.production _ added) done

/-- The grammar of the walks is built by adding to it. -/
theorem built_of_walkGrammar {g : Grammar Int} (done : sys.walkGrammar = .ok g) : g.Built := by
  have names : sys.walkNames.Built := built_foldl_addNonterminal (.empty _) _
  rw [walkGrammar] at done
  cases ended : sys.walkNames.addProduction ⟨walksFrom sys.final, .epsilon⟩ with
  | error e =>
    rw [ended] at done
    cases done
  | ok first =>
    rw [ended] at done
    cases linked : sys.liveTransitions.foldlM (fun g p => g.addProduction (walkEdge p)) first with
    | error e =>
      simp only [bind, Except.bind, linked] at done
      cases done
    | ok last =>
      simp only [bind, Except.bind, linked] at done
      exact .start _ (built_foldlM_addProduction (names.production _ ended) linked) done

theorem wellFormed_walks : sys.walks.WellFormed :=
  (built_of_walkGrammar sys.walkGrammar_eq).wellFormed

theorem bodies_walks (mem : state ∈ sys.states) :
    sys.walks.bodies (walksFrom state) = sys.walkBodies sys.liveTransitions state := by
  have entry : (walksFrom state, sys.walkBodies sys.liveTransitions state) ∈ sys.walks.rules :=
    List.mem_map.2 ⟨state, mem_inOrder.2 mem, rfl⟩
  rw [Grammar.bodies, (lookup_eq_some_iff wellFormed_walks.nodup).2 entry]
  rfl

theorem mem_walkBodies {body : Body Int} :
    body ∈ sys.walkBodies sys.liveTransitions state ↔
      (body = .epsilon ∧ state = sys.final) ∨
        ∃ index t, (index, t) ∈ sys.liveTransitions ∧ t.source = state ∧
          body = .edge (index : Nat) (some (walksFrom t.target)) := by
  simp only [walkBodies, List.mem_append, List.mem_map, List.mem_filter, decide_eq_true_eq,
    Prod.exists]
  refine or_congr ?_ ?_
  · split <;> simp_all
  · constructor
    · rintro ⟨index, t, ⟨live, source⟩, rfl⟩
      exact ⟨index, t, live, source, rfl⟩
    · rintro ⟨index, t, live, source, rfl⟩
      exact ⟨index, t, ⟨live, source⟩, rfl⟩

/-- The words derived from a state are the walks from it to the final state. -/
theorem derives_walks (mem : state ∈ sys.states) :
    sys.walks.Derives [.nonterminal (walksFrom state)] word ↔
      sys.Travels state word sys.final := by
  constructor
  · intro derives
    induction word generalizing state with
    | nil =>
      cases derives with
      | unfold rule inner =>
        rw [bodies_walks mem, mem_walkBodies] at rule
        rcases rule with ⟨rfl, rfl⟩ | ⟨index, t, -, -, rfl⟩
        · exact .nil _
        · cases inner
    | cons letter word ih =>
      cases derives with
      | unfold rule inner =>
        rw [bodies_walks mem, mem_walkBodies] at rule
        rcases rule with ⟨rfl, rfl⟩ | ⟨index, t, live, rfl, rfl⟩
        · cases inner
        · cases inner with
          | emit _ tail => exact .cons index t live (ih (fits_of_live live).2.1 tail)
  · intro travels
    generalize goal : sys.final = final at travels
    induction travels with
    | nil state =>
      have rule : .epsilon ∈ sys.walks.bodies (walksFrom state) := by
        rw [bodies_walks mem, mem_walkBodies]
        exact .inl ⟨rfl, goal.symm⟩
      exact .unfold rule .nil
    | cons index t live rest ih =>
      have rule : .edge (index : Int) (some (walksFrom t.target)) ∈
          sys.walks.bodies (walksFrom t.source) := by
        rw [bodies_walks mem, mem_walkBodies]
        exact .inr ⟨index, t, live, rfl, rfl⟩
      exact .unfold rule (.emit _ (ih (fits_of_live live).2.1 goal))

theorem mem_productive_walks (mem : state ∈ sys.states) :
    walksFrom state ∈ sys.walks.yields.productive ↔ sys.CanFinish state := by
  rw [Grammar.mem_productive _ wellFormed_walks.nodup]
  simp only [derives_walks mem, CanFinish]

/-! ## After trimming -/

/-- The states on a walk mention each other, one after another, if the walk goes on to the final
state. -/
theorem Travels.mentions {a b : Ident} (travels : sys.Travels a word b) (mem : a ∈ sys.states)
    (rest : sys.CanFinish b) :
    ReflTransGen sys.walks.Mentions (walksFrom a) (walksFrom b) := by
  induction travels with
  | nil => exact .refl
  | cons index t live onward ih =>
    obtain ⟨u, last⟩ := rest
    have inside : t.target ∈ sys.states := (fits_of_live live).2.1
    have here : sys.CanFinish t.source := ⟨_, .cons index t live (onward.append last)⟩
    have next : sys.CanFinish t.target := ⟨_, onward.append last⟩
    refine .head ⟨.edge index (some (walksFrom t.target)), ?_, by simp [Body.nonterminals]⟩
      (ih inside ⟨u, last⟩)
    rw [Grammar.bodies_prune, if_pos ((mem_productive_walks mem).2 here),
      bodies_walks mem]
    refine List.mem_filter.2 ⟨mem_walkBodies.2 (.inr ⟨index, t, live, rfl, rfl⟩), ?_⟩
    simpa [Grammar.keeps, Body.nonterminals] using (mem_productive_walks inside).2 next

theorem Useful.productive_initial (useful : sys.Useful state) :
    walksFrom sys.initial ∈ sys.walks.yields.productive :=
  (mem_productive_walks sys.initial_mem).2 useful.canFinish_initial

theorem mem_reachable_walks (useful : sys.Useful state) :
    walksFrom state ∈ sys.walks.prune.reachable := by
  have productive := useful.productive_initial
  obtain ⟨⟨word, travels⟩, rest⟩ := useful
  rw [Grammar.mem_reachable_prune wellFormed_walks.nodup rfl productive]
  exact travels.mentions sys.initial_mem rest

/-- The live transitions from a state that still lead to the final one, in order. -/
noncomputable def onward (sys : CounterSystem) (state : Ident) : List (Nat × Transition) :=
  (sys.liveTransitions.filter fun p => p.2.source = state).filter fun p =>
    walksFrom p.2.target ∈ sys.walks.yields.productive

theorem mem_onward {index : Nat} {t : Transition} :
    (index, t) ∈ sys.onward state ↔
      (index, t) ∈ sys.liveTransitions ∧ t.source = state ∧ sys.CanFinish t.target := by
  simp only [onward, List.mem_filter, decide_eq_true_eq, and_assoc]
  exact and_congr_right fun live =>
    and_congr_right fun _ => mem_productive_walks (fits_of_live live).2.1

theorem pairwise_onward : (sys.onward state).Pairwise fun a b => a.1 < b.1 :=
  (pairwise_liveTransitions.filter _).filter _

theorem bodies_trimmed_walks (useful : sys.Useful state) :
    sys.walks.trimmed.bodies (walksFrom state) =
      (if state = sys.final then [.epsilon] else []) ++
        (sys.onward state).map fun p => .edge (p.1 : Int) (some (walksFrom p.2.target)) := by
  rw [Grammar.bodies_trimmed rfl useful.productive_initial, if_pos (mem_reachable_walks useful),
    Grammar.bodies_prune, if_pos ((mem_productive_walks useful.mem).2 useful.2),
    bodies_walks useful.mem, walkBodies, List.filter_append, List.filter_map]
  congr 1
  · split <;> simp [Grammar.keeps, Body.nonterminals]
  · congr 2
    funext p
    simp [Grammar.keeps, Body.nonterminals, walkEdge]

theorem mem_bodies_trimmed_walks (useful : sys.Useful state) {body : Body Int} :
    body ∈ sys.walks.trimmed.bodies (walksFrom state) ↔
      (body = .epsilon ∧ state = sys.final) ∨
        ∃ p ∈ sys.onward state, body = .edge (p.1 : Nat) (some (walksFrom p.2.target)) := by
  rw [bodies_trimmed_walks useful, List.mem_append, List.mem_map]
  refine or_congr ?_ (exists_congr fun p => and_congr_right fun _ => eq_comm)
  split <;> simp_all

/-- Trimming loses no walk. -/
theorem derives_trimmed_walks (useful : sys.Useful state) :
    sys.walks.trimmed.Derives [.nonterminal (walksFrom state)] word ↔
      sys.Travels state word sys.final := by
  rw [← derives_walks useful.mem]
  exact Grammar.derives_trimmed_iff wellFormed_walks.nodup rfl useful.productive_initial
    (mem_reachable_walks useful)

theorem terminals_trimmed_walks (finishes : sys.CanFinish sys.initial) :
    sys.walks.trimmed.terminals = sys.liveTransitions.map fun p => (p.1 : Int) := by
  have nodup : (sys.liveTransitions.map fun p => (p.1 : Int)).Nodup := by
    refine List.pairwise_map.2 (pairwise_liveTransitions.imp fun {p q} less same => ?_)
    omega
  have known : sys.walks.terminals = sys.liveTransitions.map fun p => (p.1 : Int) := by
    rw [← distinct_of_nodup nodup, distinct_eq_foldl, List.foldl_map]
    rfl
  rw [Grammar.trimmed_of_productive rfl ((mem_productive_walks sys.initial_mem).2 finishes)]
  exact known

theorem guarded_trimmed_walks : sys.walks.trimmed.Guarded := by
  have ready : ∀ rule ∈ sys.walks.prune.rules, ∀ body ∈ rule.2,
      Grammar.Ready body.symbols := by
    intro rule mem body inside
    obtain ⟨⟨name, bodies⟩, kept, rfl⟩ := List.mem_map.1 mem
    obtain ⟨state, -, same⟩ := List.mem_map.1 (List.mem_filter.1 kept).1
    obtain ⟨rfl, rfl⟩ := Prod.mk.inj same
    rcases mem_walkBodies.1 (List.mem_filter.1 inside).1 with ⟨rfl, -⟩ | ⟨index, t, -, -, rfl⟩
    · trivial
    · trivial
  by_cases productive : walksFrom sys.initial ∈ sys.walks.yields.productive
  · rw [Grammar.trimmed_of_productive rfl productive]
    exact fun rule mem => ready rule (List.mem_filter.1 mem).1
  · rw [Grammar.trimmed_of_not_productive rfl productive]
    exact fun rule mem => absurd mem List.not_mem_nil

end CounterSystem

/-! ## The automaton -/

namespace WalkLanguage
variable {sys : CounterSystem} (language : WalkLanguage sys) {state : Ident}

/-- Its grammar is that of the walks, trimmed. -/
theorem grammar_eq : language.grammar = sys.walks.trimmed := by
  obtain ⟨table, lengths⟩ := CounterSystem.shortestLengths_walks sys
  have built : sys.trimmedWalks = .ok sys.walks.trimmed := by
    rw [CounterSystem.trimmedWalks, CounterSystem.walkGrammar_eq]
    exact Grammar.trim_of_shortestLengths CounterSystem.wellFormed_walks lengths
  exact Except.ok.inj (language.built.symm.trans built)

theorem proper_grammar : language.grammar.Proper := by
  rw [language.grammar_eq]
  exact ⟨Grammar.wellFormed_trimmed CounterSystem.wellFormed_walks.nodup,
    CounterSystem.guarded_trimmed_walks.acyclic⟩

/-- If no walk leads to the final state, no rule is left. -/
theorem trimmed_of_not_canFinish (stuck : ¬ sys.CanFinish sys.initial) :
    sys.walks.trimmed = { name := sys.walks.name } :=
  Grammar.trimmed_of_not_productive rfl
    (mt (CounterSystem.mem_productive_walks sys.initial_mem).1 stuck)

/-- If no walk leads to the final state, there is nothing to derive. -/
theorem initialState_of_not_canFinish (stuck : ¬ sys.CanFinish sys.initial) :
    language.grammar.initialState = .ok none := by
  rw [Grammar.initialState, language.grammar_eq, trimmed_of_not_canFinish stuck]
  rfl

theorem shortestLengths_grammar : ∃ table, language.grammar.shortestLengths = .ok table := by
  rw [language.grammar_eq]
  by_cases finishes : sys.CanFinish sys.initial
  · obtain ⟨table, lengths⟩ := CounterSystem.shortestLengths_walks sys
    exact Grammar.exists_shortestLengths_trimmed CounterSystem.wellFormed_walks.nodup rfl
      ((CounterSystem.mem_productive_walks sys.initial_mem).2 finishes) lengths
  · rw [trimmed_of_not_canFinish finishes]
    exact Grammar.shortestLengths_of_linear nofun

theorem checkLeftRecursion_grammar : language.grammar.checkLeftRecursion = .ok () := by
  obtain ⟨table, lengths⟩ := language.shortestLengths_grammar
  exact language.proper_grammar.checkLeftRecursion lengths

section Finishes
variable (finishes : sys.CanFinish sys.initial)
include finishes

theorem start_grammar : language.grammar.start = some (walksFrom sys.initial) := by
  rw [language.grammar_eq]
  exact Grammar.start_trimmed rfl ((CounterSystem.mem_productive_walks sys.initial_mem).2 finishes)

/-- Otherwise derivations begin in the initial state. -/
theorem initialState_of_canFinish :
    language.grammar.initialState = .ok (some [.nonterminal (walksFrom sys.initial)]) := by
  obtain ⟨table, lengths⟩ := language.shortestLengths_grammar
  have derives : ∃ word, language.grammar.Derives [.nonterminal (walksFrom sys.initial)] word := by
    obtain ⟨word, travels⟩ := finishes
    rw [language.grammar_eq]
    have useful := CounterSystem.useful_initial ⟨word, travels⟩
    exact ⟨word, (CounterSystem.derives_trimmed_walks useful).2 travels⟩
  rw [Grammar.initialState_eq language.proper_grammar lengths (language.start_grammar finishes),
    if_pos ((Grammar.isSome_yields_of _).2 derives)]

end Finishes

theorem completes_walksFrom (useful : sys.Useful state) :
    language.grammar.completes [.nonterminal (walksFrom state)] = true ↔ state = sys.final := by
  rw [language.grammar_eq, Grammar.completes_of_guarded CounterSystem.guarded_trimmed_walks]
  simp only [CounterSystem.mem_bodies_trimmed_walks useful]
  constructor
  · rintro ⟨body, ⟨-, final⟩ | ⟨p, -, rfl⟩, empty⟩
    · exact final
    · cases empty
  · exact fun final => ⟨.epsilon, .inl ⟨rfl, final⟩, rfl⟩

/-- The steps from a useful state are its transitions that still lead to the final one. -/
theorem steps_walksFrom (useful : sys.Useful state) :
    language.grammar.steps [.nonterminal (walksFrom state)] =
      (sys.onward state).map fun p => ((p.1 : Int), [.nonterminal (walksFrom p.2.target)]) := by
  have ready : (sys.walks.trimmed.bodies (walksFrom state)).filterMap
      (Grammar.readyStep? ·.symbols) =
        (sys.onward state).map fun p => ((p.1 : Int), [.nonterminal (walksFrom p.2.target)]) := by
    rw [CounterSystem.bodies_trimmed_walks useful, List.filterMap_append, List.filterMap_map]
    have skipped : (if state = sys.final then [Body.epsilon] else []).filterMap
        (fun body : Body Int => Grammar.readyStep? body.symbols) = [] := by
      split <;> rfl
    rw [skipped, List.nil_append, ← List.filterMap_eq_map]
    rfl
  rw [language.grammar_eq, Grammar.steps_of_guarded CounterSystem.guarded_trimmed_walks, ready]
  · rw [CounterSystem.bodies_trimmed_walks useful, List.map_append, List.map_map]
    refine List.Nodup.append ?_ ?_ ?_
    · split <;> simp
    · refine List.pairwise_map.2 (CounterSystem.pairwise_onward.imp fun {p q} less same => ?_)
      have equal : (p.1 : Int) = q.1 := by
        simpa [Body.symbols] using congrArg List.head? same
      omega
    · intro symbols left right
      obtain ⟨p, -, rfl⟩ := List.mem_map.1 right
      split at left <;> simp [Body.symbols] at left
  · rw [ready, CounterSystem.terminals_trimmed_walks useful.canFinish_initial, List.pairwise_map]
    refine CounterSystem.pairwise_onward.imp_of_mem fun {p q} first second less => ?_
    refine idxOf_le_idxOf ?_ ?_ ?_ (by simpa using less)
    · exact List.pairwise_map.2 (CounterSystem.pairwise_liveTransitions.imp (by simp))
    · exact List.mem_map_of_mem (List.mem_filter.1 (List.mem_filter.1 first).1).1
    · exact List.mem_map_of_mem (List.mem_filter.1 (List.mem_filter.1 second).1).1

end WalkLanguage
end ZeroRun
