import Mathlib
import ZeroRun.Proofs.Grammar.Doubling
import ZeroRun.Proofs.Grammar.Worklist

/-! The steps of a derivation state are its left quotients. In a grammar that is not left-recursive,
a state derives a word that begins with a terminal if and only if a step emits the terminal and
leaves a state that derives the rest. No step is there twice, and the steps stand in the order in
which their terminals came up first when productions were added to the grammar. -/
namespace ZeroRun

/-! ## First places -/

section FirstPlaces
variable {α : Type} [DecidableEq α] {a b : α}

/-- Leaving out other items does not change which of two comes first. -/
theorem idxOf_filter_le_iff {keep : α → Bool} (first : keep a = true) (second : keep b = true)
    (items : List α) :
    (items.filter keep).idxOf a ≤ (items.filter keep).idxOf b ↔
      items.idxOf a ≤ items.idxOf b := by
  induction items with
  | nil => simp
  | cons x items ih =>
    by_cases isFirst : x = a
    · simp [isFirst, first]
    · by_cases isSecond : x = b
      · subst isSecond
        simp [second, List.idxOf_cons_ne _ isFirst]
      · rw [List.idxOf_cons_ne _ isFirst, List.idxOf_cons_ne _ isSecond]
        cases kept : keep x with
        | true =>
          rw [List.filter_cons_of_pos kept, List.idxOf_cons_ne _ isFirst,
            List.idxOf_cons_ne _ isSecond, Nat.succ_le_succ_iff, ih, Nat.succ_le_succ_iff]
        | false =>
          rw [List.filter_cons_of_neg (by simp [kept]), ih, Nat.succ_le_succ_iff]

/-- Neither does leaving out repetitions. -/
theorem idxOf_distinct_le_iff (items : List α) :
    (distinct items).idxOf a ≤ (distinct items).idxOf b ↔ items.idxOf a ≤ items.idxOf b := by
  induction items with
  | nil => simp [distinct]
  | cons x items ih =>
    rw [distinct]
    by_cases isFirst : x = a
    · simp [isFirst]
    · by_cases isSecond : x = b
      · subst isSecond
        simp [List.idxOf_cons_ne _ isFirst]
      · rw [List.idxOf_cons_ne _ isFirst, List.idxOf_cons_ne _ isSecond,
          List.idxOf_cons_ne _ isFirst, List.idxOf_cons_ne _ isSecond, Nat.succ_le_succ_iff,
          Nat.succ_le_succ_iff, ← ih]
        exact idxOf_filter_le_iff (by simpa using Ne.symm isFirst)
          (by simpa using Ne.symm isSecond) _

theorem foldl_addNew_distinct (old new : List α) :
    new.foldl Grammar.addNew (distinct old) = distinct (old ++ new) := by
  rw [distinct_eq_foldl, distinct_eq_foldl, List.foldl_append]

end FirstPlaces

namespace Grammar
variable {τ : Type} [DecidableEq τ] {g : Grammar τ} {added : List (Production τ)}

/-! ## Grammars and what was added to them -/

/-- The terminals of productions, one production after the other. -/
def occurrences (productions : List (Production τ)) : List τ :=
  productions.flatMap fun p => p.body.terminals

/-- The grammars that come from construction and from trimming, with the productions that were added
on the way. A trimmed grammar without terminals has forgotten them. -/
inductive Grows : List (Production τ) → Grammar τ → Prop where
  | empty (name : Ident) : Grows [] { name }
  | nonterminal {added : List (Production τ)} {g : Grammar τ} (name : Ident)
      (before : Grows added g) : Grows added (g.addNonterminal name)
  | production {added : List (Production τ)} {g next : Grammar τ} (p : Production τ)
      (before : Grows added g) (done : g.addProduction p = .ok next) : Grows (added ++ [p]) next
  | start {added : List (Production τ)} {g next : Grammar τ} (start : Option Ident)
      (before : Grows added g) (set : g.setStart start = .ok next) : Grows added next
  | trimmed {added : List (Production τ)} {g next : Grammar τ} (before : Grows added g)
      (done : g.trim = .ok next) : Grows (if next.terminals.isEmpty then [] else added) next

theorem Grows.wellFormed (grows : Grows added g) : g.WellFormed := by
  induction grows with
  | empty name => exact (Built.empty name).wellFormed
  | nonterminal name _ ih => exact ih.addNonterminal name
  | production p _ done ih => exact ih.addProduction done
  | start _ _ set ih => exact ih.setStart set
  | trimmed _ done ih =>
    rw [eq_trimmed_of_trim ih done]
    exact wellFormed_trimmed ih.nodup

omit [DecidableEq τ] in
theorem terminals_trimmed (g : Grammar τ) :
    g.trimmed.terminals = g.terminals ∨ g.trimmed.terminals = [] := by
  unfold trimmed trimTo
  split
  · dsimp only
    split <;> simp
  · split <;> simp

/-- The terminals are known in the order in which they came up first. -/
theorem Grows.terminals_eq (grows : Grows added g) :
    g.terminals = distinct (occurrences added) := by
  induction grows with
  | empty name => rfl
  | nonterminal name _ ih =>
    unfold addNonterminal
    split <;> exact ih
  | production p _ done ih =>
    unfold addProduction at done
    split at done
    · cases done
    · cases done
      rw [occurrences, List.flatMap_append, List.flatMap_singleton, ← foldl_addNew_distinct]
      exact congrArg (fun known => p.body.terminals.foldl addNew known) ih
  | start start _ set ih =>
    unfold setStart at set
    split at set
    · cases set
      exact ih
    · split at set <;> cases set
      exact ih
  | @trimmed added g _ before done ih =>
    have same := eq_trimmed_of_trim before.wellFormed done
    subst same
    split
    · rename_i empty
      exact List.isEmpty_iff.1 empty
    · rename_i some
      rcases g.terminals_trimmed with kept | lost
      · rw [kept, ih]
      · exact absurd (List.isEmpty_iff.2 lost) some

/-! ## Steps -/

theorem nodup_steps (proper : g.Proper) (state : DerivationState τ) : (g.steps state).Nodup := by
  have unfoldings : (g.unfoldings state).Nodup :=
    (worksOff_unfoldings proper state).nodup (List.nodup_singleton _)
  rw [steps, (List.mergeSort_perm _ _).nodup_iff]
  refine unfoldings.filterMap fun a b step first second => ?_
  rw [readyStep?_eq_some_iff.1 first, readyStep?_eq_some_iff.1 second]

theorem pairwise_steps (g : Grammar τ) (state : DerivationState τ) :
    (g.steps state).Pairwise fun a b => g.terminals.idxOf a.1 ≤ g.terminals.idxOf b.1 := by
  have sorted : (g.steps state).Pairwise fun a b =>
      decide (g.terminals.idxOf a.1 ≤ g.terminals.idxOf b.1) = true := by
    apply List.pairwise_mergeSort
    · intro a b c first second
      simp only [decide_eq_true_eq] at first second ⊢
      omega
    · intro a b
      simp only [Bool.or_eq_true, decide_eq_true_eq]
      omega
  exact sorted.imp of_decide_eq_true

theorem expand_of_error {e : Error} (fails : g.shortestLengths = .error e)
    (state : DerivationState τ) : g.expand state = .error e := by
  rw [expand, checkLeftRecursion_of_error fails]
  rfl

theorem isComplete_of_error {e : Error} (fails : g.shortestLengths = .error e)
    (state : DerivationState τ) : g.isComplete state = .error e := by
  rw [isComplete, checkLeftRecursion_of_error fails]
  rfl

/-- The steps of a state are its left quotients, each there once, in the order in which the
terminals came up first when productions were added; terminals that never came up stand last. A
state is complete if and only if it derives the empty word. Neither is answered if the shortest
lengths are out of range, for which a grammar needs more than 1025 nonterminals. -/
theorem expand_exact (grows : Grows added g) (forward : ¬ g.LeftRecursive)
    (state : DerivationState τ) :
    (∃ steps complete, g.expand state = .ok steps ∧ g.isComplete state = .ok complete ∧
      (∀ t word, g.Derives state (t :: word) ↔ ∃ rest, (t, rest) ∈ steps ∧ g.Derives rest word) ∧
      (complete = true ↔ g.Derives state []) ∧
      steps.Nodup ∧
      steps.Pairwise fun a b =>
        (occurrences added).idxOf a.1 ≤ (occurrences added).idxOf b.1) ∨
    (g.expand state = .error (.conversion .decimalTooLarge) ∧
      g.isComplete state = .error (.conversion .decimalTooLarge) ∧
      1025 < g.nonterminals.length) := by
  have wellFormed := grows.wellFormed
  have proper := wellFormed.proper forward
  rcases shortestLengths_cases wellFormed with ⟨table, found, -⟩ | ⟨fails, many⟩
  · refine .inl ⟨g.steps state, g.completes state, ?_, ?_, fun t word => derives_cons_iff proper,
      completes_iff proper, nodup_steps proper state, ?_⟩
    · rw [expand, proper.checkLeftRecursion found]
      rfl
    · rw [isComplete, proper.checkLeftRecursion found]
      rfl
    · refine (g.pairwise_steps state).imp fun order => ?_
      rw [grows.terminals_eq, idxOf_distinct_le_iff] at order
      exact order
  · exact .inr ⟨expand_of_error fails state, isComplete_of_error fails state, many⟩

theorem grows_brackets : Grows
    [⟨.int 0, .concat (.int 1) (.int 0)⟩, ⟨.int 0, .epsilon⟩,
      ⟨.int 1, .excursion '(' (.int 0) ')'⟩, ⟨.int 1, .edge 'a' none⟩] brackets := by
  have names := (Grows.empty (τ := Char) (.int 0)).nonterminal (.int 0) |>.nonterminal (.int 1)
  have sequences := (names.production ⟨.int 0, .concat (.int 1) (.int 0)⟩ rfl).production
    ⟨.int 0, .epsilon⟩ rfl
  have items := (sequences.production ⟨.int 1, .excursion '(' (.int 0) ')'⟩ rfl).production
    ⟨.int 1, .edge 'a' none⟩ rfl
  exact items.start (some (.int 0)) rfl

/-- The sequence in front can be left out, and then a terminal that the grammar does not know is
emitted. -/
theorem expand_brackets : ∃ steps,
    brackets.expand [.nonterminal (.int 0), .terminal 'z'] = .ok steps ∧
      brackets.isComplete [.nonterminal (.int 0), .terminal 'z'] = .ok false ∧
      (∃ rest, ('z', rest) ∈ steps ∧ brackets.Derives rest []) ∧ steps.Nodup := by
  rcases expand_exact grows_brackets not_leftRecursive_brackets
      [.nonterminal (.int 0), .terminal 'z'] with
    ⟨steps, complete, expanded, completed, quotient, empty, nodup, -⟩ | ⟨-, -, many⟩
  · have omitted : brackets.Derives [.nonterminal (.int 0), .terminal 'z'] ['z'] :=
      .unfold (.tail _ (.head _)) (.emit 'z' .nil)
    have incomplete : complete = false := by
      rw [← Bool.not_eq_true, empty]
      intro derives
      obtain ⟨u, v, split, -, last⟩ := Derives.split (a := [.nonterminal (.int 0)]) derives
      cases last
      simp at split
    exact ⟨steps, expanded, incomplete ▸ completed, (quotient 'z' []).1 omitted, nodup⟩
  · exact absurd many (by decide)

/-- With 1026 nonterminals neither the steps nor completeness need be answered, although a state
emits its only letter. -/
theorem expand_thousand_doublings :
    ¬ (doubling 1024).LeftRecursive ∧
      (doubling 1024).Derives [.nonterminal (.int 0)] ['t'] ∧
      (doubling 1024).expand [.nonterminal (.int 0)] = .error (.conversion .decimalTooLarge) ∧
      (doubling 1024).isComplete [.nonterminal (.int 0)] =
        .error (.conversion .decimalTooLarge) := by
  have fails := shortestLengths_doubling (n := 1024) (Nat.sub_le _ _)
  have rule : doubled 0 ∈ (doubling 1024).bodies (.int (0 : Nat)) := by
    rw [bodies_doubling (Nat.zero_le _)]
    exact .head _
  exact ⟨not_leftRecursive_doubling 1024, .unfold rule (.emit 't' .nil),
    expand_of_error fails _, isComplete_of_error fails _⟩

end Grammar
end ZeroRun
