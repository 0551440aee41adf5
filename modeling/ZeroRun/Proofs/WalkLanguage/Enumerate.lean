import Mathlib
import ZeroRun.Proofs.Replay
import ZeroRun.Proofs.WalkLanguage
import ZeroRun.Run

/-! The walks from the initial to the final state, in order. The pending derivations of a layer
stand in states of the control graph, and their words ascend: the steps from a state ascend by
index, and of words of one length the letters before the last decide first. So the words of the
grammar come in shortlex order, and each can be followed as a walk. -/
namespace ZeroRun

namespace WalkLanguage

variable {sys : CounterSystem} {length : Nat} {layer : List (Grammar.Pending Int)} {budget : Int}
  {table : Grammar.Yields} (language : WalkLanguage sys)

/-! ## Layers -/

/-- The pending derivations of a layer: each stands in a useful state, they have emitted as many
transitions, and their words ascend. -/
structure Ascends (sys : CounterSystem) (length : Nat) (layer : List (Grammar.Pending Int)) :
    Prop where
  stands : ∀ state word, (state, word) ∈ layer →
    ∃ place, sys.Useful place ∧ state = [.nonterminal (walksFrom place)]
  emitted : ∀ state word, (state, word) ∈ layer → word.length = length
  ordered : layer.Pairwise fun a b => a.2 < b.2

theorem ascends_start (finishes : sys.CanFinish sys.initial) :
    Ascends sys 0 [([.nonterminal (walksFrom sys.initial)], [])] where
  stands state word mem := by
    cases List.mem_singleton.1 mem
    exact ⟨sys.initial, CounterSystem.useful_initial finishes, rfl⟩
  emitted state word mem := by
    cases List.mem_singleton.1 mem
    rfl
  ordered := List.pairwise_singleton _ _

/-- One derivation goes on in the order of indices. -/
theorem pairwise_followers {place : Ident} (useful : sys.Useful place) (word : Word) :
    (language.grammar.followers ([.nonterminal (walksFrom place)], word)).Pairwise
      fun a b => a.2 < b.2 := by
  rw [Grammar.followers, language.steps_walksFrom useful, List.map_map, List.pairwise_map]
  refine CounterSystem.pairwise_onward.imp fun less => ?_
  apply (concat_lt_concat_iff rfl).2
  exact .inr ⟨rfl, Int.ofNat_lt.2 less⟩

/-- One more transition is taken. -/
theorem Ascends.next (ascends : Ascends sys length layer) :
    Ascends sys (length + 1) (language.grammar.nextLayer table budget layer) where
  stands state word mem := by
    obtain ⟨⟨before, emitted, t, old, step, -⟩, -⟩ := Grammar.mem_nextLayer.1 mem
    obtain ⟨place, useful, rfl⟩ := ascends.stands before emitted old
    rw [language.steps_walksFrom useful] at step
    obtain ⟨p, ahead, same⟩ := List.mem_map.1 step
    obtain ⟨live, rfl, finishes⟩ := CounterSystem.mem_onward.1 ahead
    exact ⟨p.2.target, useful.next live finishes, (congrArg Prod.snd same).symm⟩
  emitted := Grammar.length_of_mem_nextLayer ascends.emitted
  ordered := by
    apply List.Pairwise.sublist (distinct_sublist _)
    apply List.Pairwise.filter
    refine List.pairwise_flatMap.2 ⟨?_, ascends.ordered.imp_of_mem ?_⟩
    · rintro ⟨state, word⟩ mem
      obtain ⟨place, useful, rfl⟩ := ascends.stands state word mem
      exact language.pairwise_followers useful word
    · rintro ⟨_, u⟩ ⟨_, v⟩ first second less ⟨_, _⟩ left ⟨_, _⟩ right
      obtain ⟨a, -, rfl⟩ := Grammar.mem_followers.1 left
      obtain ⟨b, -, rfl⟩ := Grammar.mem_followers.1 right
      have same : u.length = v.length :=
        (ascends.emitted _ _ first).trans (ascends.emitted _ _ second).symm
      exact (concat_lt_concat_iff same).2 (.inl less)

/-- The words that a layer shows ascend. -/
theorem Ascends.layerWords (ascends : Ascends sys length layer) (g : Grammar Int) :
    (g.layerWords layer).Pairwise (· < ·) := by
  apply List.Pairwise.sublist (distinct_sublist _)
  exact List.pairwise_map.2 (ascends.ordered.filter _)

/-- The words from a layer on are in shortlex order. -/
theorem Ascends.wordsFrom (ascends : Ascends sys length layer) (layers : Nat) :
    (language.grammar.wordsFrom table budget layers layer).Pairwise Shortlex := by
  induction layers generalizing length layer with
  | zero => exact .nil
  | succ layers ih =>
    have further : Ascends sys (length + 1) (language.grammar.nextLayer table budget layer) :=
      ascends.next language
    have size : ∀ word ∈ language.grammar.layerWords layer, word.length = length :=
      fun word => Grammar.length_of_mem_layerWords ascends.emitted
    rw [Grammar.wordsFrom]
    refine List.pairwise_append.2 ⟨(ascends.layerWords _).imp_of_mem ?_, ih further, ?_⟩
    · intro u v first second less
      exact .inr ⟨(size u first).trans (size v second).symm, less⟩
    · intro u first v second
      have later := Grammar.le_length_of_mem_wordsFrom further.emitted second
      rw [← size u first] at later
      exact .inl later

/-! ## The words -/

theorem derive_of_canFinish (finishes : sys.CanFinish sys.initial) (budget : Int) :
    language.grammar.derive budget =
      .ok (language.grammar.enumerated (walksFrom sys.initial) budget) := by
  have productive := (CounterSystem.mem_productive_walks sys.initial_mem).2 finishes
  have clear : ¬ language.grammar.Overflows budget := by
    refine Grammar.not_overflows language.proper_grammar language.shortestLengths_grammar ?_
    rw [language.grammar_eq]
    exact fun name left =>
      Grammar.productive_trimmed CounterSystem.wellFormed_walks.nodup rfl left
  rcases Grammar.derive_cases language.proper_grammar (language.start_grammar finishes) budget with
    ⟨derived, -⟩ | ⟨-, overflows⟩
  · exact derived
  · exact absurd overflows clear

/-- The words of the grammar are the walks, in shortlex order. -/
theorem derive_grammar (budget : Int) :
    ∃ words, language.grammar.derive budget = .ok words ∧ words.Pairwise Shortlex ∧
      ∀ word, word ∈ words ↔
        sys.Travels sys.initial word sys.final ∧ (word.length : Int) ≤ budget := by
  by_cases finishes : sys.CanFinish sys.initial
  · refine ⟨_, language.derive_of_canFinish finishes budget, ?_, fun word => ?_⟩
    · rw [Grammar.enumerated]
      split
      · exact (ascends_start finishes).wordsFrom language _
      · exact .nil
    · rw [(Grammar.enumerated_exact language.proper_grammar _ budget).2.2, language.grammar_eq,
        CounterSystem.derives_trimmed_walks (CounterSystem.useful_initial finishes)]
  · refine ⟨[], ?_, .nil, fun word => ⟨fun mem => absurd mem List.not_mem_nil, ?_⟩⟩
    · exact Grammar.derive_of_initialState (language.initialState_of_not_canFinish finishes) budget
    · rintro ⟨travels, -⟩
      exact absurd ⟨word, travels⟩ finishes

end WalkLanguage

/-! ## The walks -/

/-- Words that are walks can all be followed. -/
theorem Walk.mapM_ofWord {sys : CounterSystem} {words : List Word}
    (travel : ∀ word ∈ words, ∃ state, sys.Travels sys.initial word state) :
    ∃ walks, words.mapM (ofWord sys) = .ok walks ∧ walks.map Walk.word = words := by
  induction words with
  | nil => exact ⟨[], rfl, rfl⟩
  | cons word words ih =>
    obtain ⟨state, travels⟩ := travel word List.mem_cons_self
    obtain ⟨walk, followed, spelled⟩ := ofWord_of_travels travels
    obtain ⟨walks, rest, spells⟩ := ih fun word mem => travel word (List.mem_cons_of_mem _ mem)
    refine ⟨walk :: walks, ?_, by rw [List.map_cons, spelled, spells]⟩
    rw [List.mapM_cons, followed, rest]
    rfl

theorem not_shortlex_self (word : Word) : ¬ Shortlex word word := by
  simp [Shortlex]

namespace WalkLanguage
variable {sys : CounterSystem}

/-- The language of a system holds the walks of live transitions from the initial to the final
state, and nothing else. Up to a length they come in shortlex order, each once, and none of them
fails to be a walk of the system. The empty walk is there if the two states are the same. -/
theorem walksWithin_exact (language : WalkLanguage sys) (budget : Int) :
    ∃ walks, language.walksWithin budget = .ok walks ∧
      language.deriveWalks budget = .ok (walks.map Walk.word) ∧
      (walks.map Walk.word).Pairwise Shortlex ∧ walks.Nodup ∧
      (∀ word, word ∈ walks.map Walk.word ↔
        sys.Travels sys.initial word sys.final ∧ (word.length : Int) ≤ budget) ∧
      ([] ∈ walks.map Walk.word ↔ sys.initial = sys.final ∧ 0 ≤ budget) := by
  obtain ⟨words, derived, ordered, mem_words⟩ := language.derive_grammar budget
  obtain ⟨walks, followed, rfl⟩ := Walk.mapM_ofWord fun word mem =>
    ⟨sys.final, ((mem_words word).1 mem).1⟩
  have within : language.walksWithin budget = .ok walks := by
    rw [walksWithin, derived]
    exact followed
  have shown : language.deriveWalks budget = .ok (walks.map Walk.word) := by
    rw [deriveWalks, within]
    rfl
  have once : (walks.map Walk.word).Nodup := by
    apply ordered.imp
    rintro u v less rfl
    exact not_shortlex_self u less
  refine ⟨walks, within, shown, ordered, once.of_map _, mem_words, ?_⟩
  rw [mem_words, CounterSystem.Travels.nil_iff]
  exact and_congr_left' eq_comm

end WalkLanguage
end ZeroRun
