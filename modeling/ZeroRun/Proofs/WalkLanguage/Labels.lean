import Mathlib
import ZeroRun.Proofs.WalkLanguage.Enumerate

/-! The label words of a language. Walks with different transitions may carry the same labels. They
have the same length, so leaving out repetitions in each layer leaves out all of them. A word of
labels is looked up by following all walks that carry it at once: label after label, the states are
kept that such a walk reaches and that can still finish. -/
namespace ZeroRun

/-! ## Enumerating -/

namespace WalkLanguage
variable {sys : CounterSystem} (language : WalkLanguage sys)

theorem length_labelsOf (word : Word) : (labelsOf sys word).length = word.length :=
  List.length_map _

/-- What is told are the label words that have not been told, each once, if the words come by
increasing length. Label words are remembered for one length only, which is enough. -/
theorem heard_hear {words : List Word} (heard : Heard)
    (ordered : words.Pairwise fun u v => u.length ≤ v.length)
    (longer : ∀ word ∈ words, heard.length ≤ word.length)
    (told : ∀ labels ∈ heard.labels, labels.length = heard.length) :
    Grammar.Cursor.heard (Heard.hear sys) heard words =
      (distinct (words.map (labelsOf sys))).filter (· ∉ heard.labels) := by
  induction words generalizing heard with
  | nil => rfl
  | cons word words ih =>
    obtain ⟨first, rest⟩ := List.pairwise_cons.1 ordered
    generalize remembered : (if word.length = heard.length then heard.labels else []) = known
    -- What is forgotten is shorter than all that comes.
    have same (labels : List Ident) (long : word.length ≤ labels.length) :
        labels ∈ known ↔ labels ∈ heard.labels := by
      rw [← remembered]
      split
      · rfl
      · rename_i differs
        refine ⟨nofun, fun mem => ?_⟩
        have short := told labels mem
        have least := longer word List.mem_cons_self
        omega
    have sizes : ∀ labels ∈ known, labels.length = word.length := by
      rw [← remembered]
      split
      · rename_i equal
        exact fun labels mem => (told labels mem).trans equal.symm
      · exact nofun
    have own : (labelsOf sys word).length = word.length := length_labelsOf word
    have later : ∀ labels ∈ distinct (words.map (labelsOf sys)), word.length ≤ labels.length := by
      intro labels mem
      obtain ⟨next, inside, rfl⟩ := List.mem_map.1 (mem_distinct.1 mem)
      rw [length_labelsOf]
      exact first next inside
    have hears : Heard.hear sys heard word =
        if labelsOf sys word ∈ known then (⟨word.length, known⟩, none)
        else (⟨word.length, known ++ [labelsOf sys word]⟩, some (labelsOf sys word)) := by
      rw [Heard.hear, remembered]
    rw [Grammar.Cursor.heard, hears, List.map_cons, distinct]
    by_cases old : labelsOf sys word ∈ known
    · rw [if_pos old, ih ⟨word.length, known⟩ rest first sizes,
        List.filter_cons_of_neg (by simpa using (same _ own.ge).1 old), List.filter_filter]
      refine List.filter_congr fun labels mem => Bool.eq_iff_iff.2 ?_
      simp only [Bool.and_eq_true, decide_eq_true_eq, same labels (later labels mem)]
      refine (and_iff_left_of_imp fun fresh equal => fresh ?_).symm
      exact equal ▸ (same _ own.ge).1 old
    · have further : ∀ labels ∈ known ++ [labelsOf sys word], labels.length = word.length := by
        intro labels mem
        rcases List.mem_append.1 mem with before | now
        · exact sizes labels before
        · rw [List.mem_singleton.1 now, own]
      rw [if_neg old, ih ⟨word.length, known ++ [labelsOf sys word]⟩ rest first further,
        List.filter_cons_of_pos (by simpa using mt (same _ own.ge).2 old), List.filter_filter]
      refine congrArg (_ :: ·) (List.filter_congr fun labels mem => Bool.eq_iff_iff.2 ?_)
      simp only [Bool.and_eq_true, decide_eq_true_eq, List.mem_append, List.mem_singleton, not_or,
        same labels (later labels mem)]

/-- The label words come in the order of the first walks that carry them. -/
theorem deriveLabels_eq {budget : Int} {words : List Word}
    (derived : language.grammar.derive budget = .ok words)
    (ordered : words.Pairwise Shortlex) :
    language.deriveLabels budget = .ok (distinct (words.map (labelsOf sys))) := by
  have byLength : words.Pairwise fun u v => u.length ≤ v.length :=
    ordered.imp fun less => less.elim Nat.le_of_lt fun equal => equal.1.le
  rw [deriveLabels, Grammar.collect_fresh, derived, Except.map,
    heard_hear ⟨0, []⟩ byLength (fun _ _ => Nat.zero_le _) nofun]
  simp

/-! ## Looking up -/

theorem labelOf_eq {index : Nat} {t : Transition} (present : sys.transitions[index]? = some t) :
    labelOf sys index = t.label := by
  simp [labelOf, itemAt?, present]

theorem labelsOf_word (walk : Walk sys) : labelsOf sys walk.word = walk.labels := by
  rw [labelsOf, Walk.word, List.map_map, Walk.labels]
  exact List.map_congr_left fun p mem => labelOf_eq (walk.valid.present p mem)

theorem mem_labelSteps {label : Ident} {states : List (DerivationState Int)}
    {next : DerivationState Int} :
    next ∈ language.labelSteps label states ↔
      ∃ state ∈ states, ∃ index, (index, next) ∈ language.grammar.steps state ∧
        labelOf sys index = label := by
  simp [labelSteps, mem_distinct]

/-- After some labels there are the states that can still finish and are reached by a walk with
these labels. -/
theorem mem_foldl_labelSteps (finishes : sys.CanFinish sys.initial) {labels : List Ident}
    {state : DerivationState Int} :
    state ∈ labels.foldl (fun states label => language.labelSteps label states)
        [[.nonterminal (walksFrom sys.initial)]] ↔
      ∃ place word, state = [.nonterminal (walksFrom place)] ∧ sys.CanFinish place ∧
        sys.Travels sys.initial word place ∧ labelsOf sys word = labels := by
  induction labels using List.reverseRecOn generalizing state with
  | nil =>
    rw [List.foldl_nil, List.mem_singleton]
    constructor
    · rintro rfl
      exact ⟨sys.initial, [], rfl, finishes, .nil _, rfl⟩
    · rintro ⟨place, word, rfl, -, travels, same⟩
      cases List.map_eq_nil_iff.1 same
      rw [CounterSystem.Travels.nil_iff.1 travels]
  | append_singleton labels label ih =>
    rw [List.foldl_concat, mem_labelSteps]
    constructor
    · rintro ⟨before, mem, index, step, rfl⟩
      obtain ⟨place, word, rfl, finishes, travels, rfl⟩ := ih.1 mem
      rw [language.steps_walksFrom ⟨⟨word, travels⟩, finishes⟩] at step
      obtain ⟨p, ahead, same⟩ := List.mem_map.1 step
      obtain ⟨live, rfl, onward⟩ := CounterSystem.mem_onward.1 ahead
      cases same
      refine ⟨p.2.target, word ++ [(p.1 : Int)], rfl, onward, ?_, List.map_append⟩
      exact CounterSystem.Travels.concat_iff.2 ⟨p.1, p.2, rfl, live, travels, rfl⟩
    · rintro ⟨place, word, rfl, finishes, travels, same⟩
      obtain ⟨u, v, rfl, rfl, last⟩ := List.map_eq_append_iff.1 same
      obtain ⟨letter, rfl, rfl⟩ := List.map_eq_singleton_iff.1 last
      obtain ⟨index, t, rfl, live, before, rfl⟩ := CounterSystem.Travels.concat_iff.1 travels
      obtain ⟨rest, after⟩ := finishes
      have canFinish : sys.CanFinish t.source := ⟨_, .cons index t live after⟩
      refine ⟨_, ih.2 ⟨t.source, u, rfl, canFinish, before, rfl⟩, index, ?_, rfl⟩
      rw [language.steps_walksFrom ⟨⟨u, before⟩, canFinish⟩]
      have ahead : (index, t) ∈ sys.onward t.source :=
        CounterSystem.mem_onward.2 ⟨live, rfl, rest, after⟩
      exact List.mem_map_of_mem ahead

/-- Looking up never fails, and finds what a walk from the initial to the final state carries. -/
theorem contains_eq (labels : List Ident) :
    ∃ answer, language.contains labels = .ok answer ∧
      (answer = true ↔ ∃ word, sys.Travels sys.initial word sys.final ∧
        labelsOf sys word = labels) := by
  by_cases finishes : sys.CanFinish sys.initial
  · have begins := language.initialState_of_canFinish finishes
    refine ⟨_, by rw [contains, begins]; rfl, ?_⟩
    simp only [List.any_eq_true, language.mem_foldl_labelSteps finishes]
    constructor
    · rintro ⟨_, ⟨place, word, rfl, finishes, travels, same⟩, complete⟩
      rw [language.completes_walksFrom ⟨⟨word, travels⟩, finishes⟩] at complete
      exact ⟨word, complete ▸ travels, same⟩
    · rintro ⟨word, travels, same⟩
      have finished : sys.CanFinish sys.final := ⟨[], .nil _⟩
      refine ⟨_, ⟨sys.final, word, rfl, finished, travels, same⟩, ?_⟩
      exact (language.completes_walksFrom ⟨⟨word, travels⟩, finished⟩).2 rfl
  · refine ⟨false, ?_, ?_⟩
    · rw [contains, language.initialState_of_not_canFinish finishes]
      rfl
    · constructor
      · intro found
        cases found
      · rintro ⟨word, travels, -⟩
        exact absurd ⟨word, travels⟩ finishes

/-! ## Label words -/

/-- Enumerating and looking up agree. A word of labels is in the language if some walk of live
transitions from the initial to the final state carries it. Up to a length, each is enumerated once,
no matter how many walks carry it. -/
theorem labels_exact (budget : Int) :
    ∃ words, language.deriveLabels budget = .ok words ∧ words.Nodup ∧
      ∀ labels, ∃ answer, language.contains labels = .ok answer ∧
        (labels ∈ words ↔ (labels.length : Int) ≤ budget ∧ answer = true) ∧
        (answer = true ↔ ∃ walk : Walk sys,
          sys.Travels sys.initial walk.word sys.final ∧ walk.labels = labels) := by
  obtain ⟨words, derived, ordered, mem_words⟩ := language.derive_grammar budget
  refine ⟨_, language.deriveLabels_eq derived ordered, nodup_distinct _, fun labels => ?_⟩
  obtain ⟨answer, found, exact_answer⟩ := language.contains_eq labels
  refine ⟨answer, found, ?_, exact_answer.trans ?_⟩
  · rw [mem_distinct, List.mem_map, exact_answer]
    constructor
    · rintro ⟨word, mem, rfl⟩
      obtain ⟨travels, short⟩ := (mem_words word).1 mem
      rw [length_labelsOf]
      exact ⟨short, word, travels, rfl⟩
    · rintro ⟨short, word, travels, rfl⟩
      rw [length_labelsOf] at short
      exact ⟨word, (mem_words word).2 ⟨travels, short⟩, rfl⟩
  · constructor
    · rintro ⟨word, travels, rfl⟩
      obtain ⟨walk, -, rfl⟩ := Walk.ofWord_of_travels travels
      exact ⟨walk, travels, (labelsOf_word walk).symm⟩
    · rintro ⟨walk, travels, rfl⟩
      exact ⟨walk.word, travels, labelsOf_word walk⟩

end WalkLanguage
end ZeroRun
