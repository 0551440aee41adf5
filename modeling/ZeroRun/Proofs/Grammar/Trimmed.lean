import Mathlib
import ZeroRun.Proofs.Grammar.Enumerate
import ZeroRun.Proofs.Grammar.Part
import ZeroRun.Proofs.Grammar.Useful

/-! The enumeration of a trimmed grammar. What trimming takes away leads to states from which no
word can be derived, and such states never lead back to one with a word. So unfolding in the trimmed
grammar finds the same states in the same order, without these. They take no part in an enumeration,
as no budget is enough for them: the layers of the two grammars are the same.

What is left is a part of the grammar whose sweeps go through the same lengths, and with no infinite
length in it no sum is out of range any more. So it can be enumerated even where a length of the
whole grammar is out of range on the way. -/
namespace ZeroRun.Grammar
open Relation (ReflTransGen)

variable {τ : Type} {g : Grammar τ} {start name : Ident} {state rest : DerivationState τ}
  {word : List τ} {t : τ}

/-! ## States of a grammar -/

/-- All nonterminals of the state are in the grammar. -/
def Knows (g : Grammar τ) (state : DerivationState τ) : Prop :=
  ∀ name, .nonterminal name ∈ state → name ∈ g.nonterminals

theorem Knows.unfolds (known : g.Knows state) (wellFormed : g.WellFormed)
    (unfolds : g.Unfolds state rest) : g.Knows rest := by
  obtain ⟨name, tail, body, rule, rfl, rfl⟩ := unfolds_iff.1 unfolds
  intro other mem
  rcases List.mem_append.1 mem with inside | later
  · exact wellFormed.known_of_body rule (nonterminal_mem_symbols.1 inside)
  · exact known other (List.mem_cons_of_mem _ later)

theorem Knows.leads (known : g.Knows state) (wellFormed : g.WellFormed)
    (path : ReflTransGen g.Unfolds state rest) : g.Knows rest := by
  induction path with
  | refl => exact known
  | tail _ unfolds ih => exact ih.unfolds wellFormed unfolds

theorem Knows.step [DecidableEq τ] (known : g.Knows state) (proper : g.Proper)
    (step : (t, rest) ∈ g.steps state) : g.Knows rest := by
  have emitting := known.leads proper.wellFormed ((mem_steps proper).1 step)
  exact fun name mem => emitting name (List.mem_cons_of_mem _ mem)

/-- Can a word be derived from the state? -/
noncomputable def derivable (g : Grammar τ) (state : DerivationState τ) : Bool :=
  (stateYield g.yields state).isSome

theorem derivable_iff : g.derivable state = true ↔ ∃ word, g.Derives state word := by
  rw [derivable, Option.isSome_iff_exists]
  constructor
  · rintro ⟨m, least⟩
    obtain ⟨word, derives, -⟩ := exists_derives_of_stateYield least
    exact ⟨word, derives⟩
  · rintro ⟨word, derives⟩
    obtain ⟨m, least, -⟩ := exists_stateYield_of_derives derives
    exact ⟨m, least⟩

theorem derivable_terminal (g : Grammar τ) (t : τ) (rest : DerivationState τ) :
    g.derivable (.terminal t :: rest) = g.derivable rest := by
  refine Bool.eq_iff_iff.2 (derivable_iff.trans (Iff.trans ?_ derivable_iff.symm))
  constructor
  · rintro ⟨word, derives⟩
    cases derives with
    | emit _ tail => exact ⟨_, tail⟩
  · rintro ⟨word, derives⟩
    exact ⟨_, .emit t derives⟩

/-- A state without a word leads to no state with one. -/
theorem not_derivable_of_unfold (barren : g.derivable state = false) :
    ∀ rest ∈ g.unfold state, g.derivable rest = false := by
  intro rest step
  rw [← Bool.not_eq_true, derivable_iff] at barren ⊢
  rintro ⟨word, derives⟩
  exact barren ⟨word, derives_of_leads (.single step) derives⟩

/-! ## Left recursion -/

theorem Unfolds.of_trimmed {a b : DerivationState τ} (unfolds : g.trimmed.Unfolds a b) :
    g.Unfolds a b := by
  obtain ⟨name, rest, body, rule, rfl, rfl⟩ := unfolds_iff.1 unfolds
  exact unfolds_iff.2 ⟨name, rest, body, mem_bodies_of_trimmed rule, rfl, rfl⟩

theorem not_leftRecursive_trimmed (forward : ¬ g.LeftRecursive) : ¬ g.trimmed.LeftRecursive := by
  rintro ⟨name, rest, path⟩
  exact forward ⟨name, rest, path.lift id fun _ _ => Unfolds.of_trimmed⟩

theorem Proper.trimmed (proper : g.Proper) : g.trimmed.Proper :=
  (wellFormed_trimmed proper.wellFormed.nodup).proper
    (not_leftRecursive_trimmed proper.not_leftRecursive)

/-! ## Unfolding -/

section Unfolding
variable (nodup : g.nonterminals.Nodup) (begins : g.start = some start)
  (productive : start ∈ g.yields.productive)
include nodup begins productive

omit productive in
theorem reached_of_knows (known : g.trimmed.Knows state) (mem : .nonterminal name ∈ state) :
    name ∈ g.prune.reachable :=
  ((mem_nonterminals_trimmed nodup begins).1 (known name mem)).2

theorem exists_derives_of_knows (known : g.trimmed.Knows state) : ∃ word, g.Derives state word := by
  refine exists_derives_of_productive nodup fun name mem => ?_
  exact productive_of_reached nodup begins productive (reached_of_knows nodup begins known mem)

theorem derives_trimmed_of_knows (known : g.trimmed.Knows state) :
    g.trimmed.Derives state word ↔ g.Derives state word := by
  refine ⟨derives_of_trimmed,
    fun derives => derives.trimmed nodup begins productive fun name mem => ?_⟩
  exact reached_of_knows nodup begins known mem

theorem stateYield_trimmed (known : g.trimmed.Knows state) :
    stateYield g.trimmed.yields state = stateYield g.yields state := by
  apply Option.ext
  intro m
  simp only [stateYield_eq_some_iff, derives_trimmed_of_knows nodup begins productive known]

omit productive in
theorem yields_trimmed (left : name ∈ g.trimmed.nonterminals) :
    g.trimmed.yields.of name = g.yields.of name := by
  have productive := ((mem_nonterminals_trimmed nodup begins).1 left).1
  have known : g.trimmed.Knows [.nonterminal name] := by
    intro other mem
    cases List.mem_singleton.1 mem
    exact left
  have alone (table : Yields) :
      stateYield table [(.nonterminal name : Symbol τ)] = table.of name := by
    cases found : table.of name <;> simp [stateYield, Length.sum, Length.add, found]
  rw [← alone, stateYield_trimmed nodup begins productive known, alone]

/-- Trimming leaves the right-hand sides that can lead to a word. -/
theorem unfold_trimmed (known : g.trimmed.Knows state) :
    g.trimmed.unfold state = (g.unfold state).filter g.derivable := by
  cases state with
  | nil => rfl
  | cons symbol rest =>
    cases symbol with
    | terminal t => rfl
    | nonterminal name =>
      have reached := reached_of_knows nodup begins known List.mem_cons_self
      have own := productive_of_reached nodup begins productive reached
      have later : ∃ word, g.Derives rest word :=
        exists_derives_of_knows nodup begins productive fun other mem =>
          known other (List.mem_cons_of_mem _ mem)
      rw [unfold, bodies_trimmed begins productive, if_pos reached, bodies_prune, if_pos own,
        unfold, List.filter_map]
      congr 1
      refine List.filter_congr fun body _ => Bool.eq_iff_iff.2 ?_
      rw [Function.comp_apply, derivable_iff]
      constructor
      · intro kept
        obtain ⟨u, left⟩ := exists_derives_of_keeps nodup kept
        obtain ⟨v, right⟩ := later
        exact ⟨u ++ v, left.append right⟩
      · rintro ⟨word, derives⟩
        exact keeps_of_derives nodup derives

end Unfolding

/-! ## Shortest lengths -/

section Lengths
variable (nodup : g.nonterminals.Nodup) (begins : g.start = some start)
  (productive : start ∈ g.yields.productive)
include nodup begins productive

/-- Does trimming leave the production? -/
noncomputable def leaves (g : Grammar τ) (p : Production τ) : Bool :=
  p.lhs ∈ g.prune.reachable && g.keeps p.body

theorem isPart_trimmed : g.IsPart (· ∈ g.prune.reachable) g.leaves where
  own p mem left := by
    rw [leaves, Bool.and_eq_true, decide_eq_true_eq] at left
    have rule := (mem_allProductions nodup).1 mem
    have own := productive_of_reached nodup begins productive left.1
    refine ⟨decide_eq_true left.1, fun name named => decide_eq_true ?_⟩
    have reached := (mem_reachable_prune nodup begins productive).1 left.1
    refine (mem_reachable_prune nodup begins productive).2 (reached.tail ⟨p.body, ?_, named⟩)
    rw [bodies_prune, if_pos own]
    exact List.mem_filter.2 ⟨rule, left.2⟩
  others p mem left := by
    by_cases reached : p.lhs ∈ g.prune.reachable
    · refine .inr fun word derives => ?_
      have kept := keeps_of_derives nodup ((List.append_nil p.body.symbols).symm ▸ derives)
      simp [leaves, reached, kept] at left
    · exact .inl (decide_eq_false reached)

theorem nonterminals_trimmed :
    g.trimmed.nonterminals = g.nonterminals.filter (· ∈ g.prune.reachable) := by
  have names : g.prune.nonterminals = g.nonterminals.filter (· ∈ g.yields.productive) := by
    rw [nonterminals, prune, List.map_map, nonterminals, List.filter_map]
    rfl
  have left : g.trimmed.nonterminals = g.prune.nonterminals.filter (· ∈ g.prune.reachable) := by
    rw [trimmed_of_productive begins productive, nonterminals, nonterminals, List.filter_map]
    rfl
  rw [left, names, List.filter_filter]
  refine List.filter_congr fun name _ => ?_
  rw [← Bool.decide_and, decide_eq_decide, and_iff_left_iff_imp]
  exact productive_of_reached nodup begins productive

theorem allProductions_trimmed :
    g.trimmed.allProductions = g.allProductions.filter g.leaves := by
  have pruned : g.prune.rules = (g.rules.filter fun rule => rule.1 ∈ g.yields.productive).map
      fun rule => (rule.1, rule.2.filter g.keeps) := rfl
  have reached : (fun rule : Ident × List (Body τ) => decide (rule.1 ∈ g.prune.reachable) &&
      decide (rule.1 ∈ g.yields.productive)) = fun rule => decide (rule.1 ∈ g.prune.reachable) := by
    funext rule
    rw [← Bool.decide_and, decide_eq_decide, and_iff_left_iff_imp]
    exact productive_of_reached nodup begins productive
  have rules : g.trimmed.rules = (g.rules.filter fun rule => rule.1 ∈ g.prune.reachable).map
      fun rule => (rule.1, rule.2.filter g.keeps) := by
    rw [trimmed_of_productive begins productive, pruned, List.filter_map, List.filter_filter]
    exact congrArg (fun keep => (g.rules.filter keep).map _) reached
  rw [allProductions, rules, List.flatMap_map, allProductions, List.filter_flatMap]
  refine Eq.trans ?_ (flatMap_filter
    fun rule _ (outside : decide (rule.1 ∈ g.prune.reachable) = false) => ?_)
  · refine List.flatMap_congr fun rule mem => ?_
    have reached := (List.mem_filter.1 mem).2
    dsimp only
    rw [List.filter_map]
    congr 1
    refine List.filter_congr fun body _ => ?_
    rw [Function.comp_apply, leaves, reached, Bool.true_and]
  · refine List.filter_eq_nil_iff.2 fun p mem => ?_
    obtain ⟨body, -, rfl⟩ := List.mem_map.1 mem
    rw [leaves, outside]
    exact Bool.false_ne_true

/-- The trimmed grammar has its shortest lengths if the grammar has. -/
theorem exists_shortestLengths_trimmed {table : Yields} (found : g.shortestLengths = .ok table) :
    ∃ lengths, g.trimmed.shortestLengths = .ok lengths :=
  (isPart_trimmed nodup begins productive).exists_shortestLengths nodup found
    (nonterminals_trimmed nodup begins productive) (allProductions_trimmed nodup begins productive)

end Lengths

section Steps
variable [DecidableEq τ] (proper : g.Proper) (begins : g.start = some start)
  (productive : start ∈ g.yields.productive)
include proper begins productive

/-- Unfolding finds the same states in the same order, without those that have no word. -/
theorem unfoldings_trimmed (known : g.trimmed.Knows state) :
    g.trimmed.unfoldings state = (g.unfoldings state).filter g.derivable := by
  have nodup := proper.wellFormed.nodup
  have begun : [state].filter g.derivable = [state] := by
    refine List.filter_eq_self.2 fun x mem => ?_
    rw [List.mem_singleton.1 mem, derivable_iff]
    exact exists_derives_of_knows nodup begins productive known
  have same := filter_spreadFrom g.trimmed.Knows
    (fun x known => unfold_trimmed nodup begins productive known)
    (fun x barren => not_derivable_of_unfold barren)
    (fun x known y step => known.unfolds proper.trimmed.wellFormed step)
    (g.levelBound state + g.trimmed.levelBound state) [state] [state]
    (fun x mem _ => List.mem_singleton.1 mem ▸ known)
  rw [begun] at same
  rw [unfoldings_eq proper state (g.trimmed.levelBound state),
    unfoldings_eq proper.trimmed state (g.levelBound state), Nat.add_comm]
  exact same.symm

/-- The steps are the same, without those after which there is no word. -/
theorem steps_trimmed (known : g.trimmed.Knows state) :
    g.trimmed.steps state = (g.steps state).filter fun step => g.derivable step.2 := by
  have terminals : g.trimmed.terminals = g.terminals := by
    rw [trimmed_of_productive begins productive]
    rfl
  have ready : ((g.unfoldings state).filter g.derivable).filterMap readyStep? =
      ((g.unfoldings state).filterMap readyStep?).filter fun step => g.derivable step.2 := by
    rw [List.filterMap_filter, List.filter_filterMap]
    refine List.filterMap_congr fun x _ => ?_
    cases x with
    | nil => simp [readyStep?]
    | cons symbol rest =>
      cases symbol with
      | nonterminal name => simp [readyStep?]
      | terminal t => simp [readyStep?, Option.filter_some, derivable_terminal]
  rw [steps, unfoldings_trimmed proper begins productive known, terminals, ready, steps,
    filter_mergeSort]
  · intro a b c first second
    simp only [decide_eq_true_eq] at *
    omega
  · intro a b
    simp only [Bool.or_eq_true, decide_eq_true_eq]
    omega

theorem completes_trimmed (known : g.trimmed.Knows state) :
    g.trimmed.completes state = g.completes state := by
  rw [Bool.eq_iff_iff, completes_iff proper.trimmed, completes_iff proper]
  exact derives_trimmed_of_knows proper.wellFormed.nodup begins productive known

theorem followers_trimmed (budget : Int) {item : Pending τ} (known : g.trimmed.Knows item.1) :
    (g.trimmed.followers item).filter (fits g.trimmed.yields budget) =
      (g.followers item).filter (fits g.yields budget) := by
  have steps := steps_trimmed proper begins productive known
  rw [followers, followers, List.filter_map, List.filter_map, steps, List.filter_filter]
  congr 1
  refine List.filter_congr ?_
  rintro ⟨t, rest⟩ step
  by_cases kept : g.derivable rest = true
  · have left : (t, rest) ∈ g.trimmed.steps item.1 := by
      rw [steps]
      exact List.mem_filter.2 ⟨step, kept⟩
    have same := stateYield_trimmed proper.wellFormed.nodup begins productive
      (known.step proper.trimmed left)
    simp [kept, fits, same]
  · -- No budget is enough for a state without a word.
    have infinite : stateYield g.yields rest = none := by
      rwa [derivable, Option.not_isSome_iff_eq_none] at kept
    simp [kept, fits, infinite, Length.add, Length.exceeds]

/-! ## Layers -/

variable {layer : List (Pending τ)}

theorem layerWords_trimmed (known : ∀ item ∈ layer, g.trimmed.Knows item.1) :
    g.trimmed.layerWords layer = g.layerWords layer := by
  rw [layerWords, layerWords, List.filter_congr fun item mem =>
    completes_trimmed proper begins productive (known item mem)]

theorem nextLayer_trimmed (budget : Int) (known : ∀ item ∈ layer, g.trimmed.Knows item.1) :
    g.trimmed.nextLayer g.trimmed.yields budget layer = g.nextLayer g.yields budget layer := by
  rw [nextLayer, nextLayer, List.filter_flatMap, List.filter_flatMap, List.flatMap_congr
    fun item mem => followers_trimmed proper begins productive budget (known item mem)]

/-- The two enumerations go through the same layers. -/
theorem wordsFrom_trimmed (budget : Int) (layers : Nat)
    (known : ∀ item ∈ layer, g.trimmed.Knows item.1) :
    g.trimmed.wordsFrom g.trimmed.yields budget layers layer =
      g.wordsFrom g.yields budget layers layer := by
  induction layers generalizing layer with
  | zero => rfl
  | succ layers ih =>
    have next := nextLayer_trimmed proper begins productive budget known
    have further : ∀ item ∈ g.nextLayer g.yields budget layer, g.trimmed.Knows item.1 := by
      rw [← next]
      rintro ⟨state, word⟩ mem
      obtain ⟨⟨before, emitted, t, old, step, -⟩, -⟩ := mem_nextLayer.1 mem
      exact (known _ old).step proper.trimmed step
    rw [wordsFrom, wordsFrom, layerWords_trimmed proper begins productive known, next, ih further]

theorem enumerated_trimmed (budget : Int) :
    g.trimmed.enumerated start budget = g.enumerated start budget := by
  have nodup := proper.wellFormed.nodup
  have left := start_mem_trimmed nodup begins productive
  have known : ∀ item ∈ [([.nonterminal start], ([] : List τ))], g.trimmed.Knows item.1 := by
    intro item first name mem
    cases List.mem_singleton.1 first
    cases List.mem_singleton.1 mem
    exact left
  rw [enumerated, yields_trimmed nodup begins left,
    wordsFrom_trimmed proper begins productive budget _ known, enumerated]

end Steps

/-! ## Without infinite lengths -/

section Overflow
variable [DecidableEq τ] {budget : Int}

theorem Underway.knows (underway : g.Underway budget state word) (proper : g.Proper) :
    g.Knows state := by
  induction underway with
  | @start start _ _ inhabited =>
    intro name mem
    cases List.mem_singleton.1 mem
    exact mem_nonterminals_of_derives inhabited
  | step _ step _ _ ih => exact ih.step proper step

/-- If all nonterminals have a word, no sum is out of range. -/
theorem not_overflows (proper : g.Proper) (found : ∃ table, g.shortestLengths = .ok table)
    (all : ∀ name ∈ g.nonterminals, name ∈ g.yields.productive) : ¬ g.Overflows budget := by
  obtain ⟨table, found⟩ := found
  have same := eq_yields_of_shortestLengths proper.wellFormed found
  subst same
  rintro (fails | ⟨table, state, word, t, next, again, underway, -, step, fails⟩)
  · cases found.symm.trans fails
  · cases found.symm.trans again
    have known := (underway.knows proper).step proper step
    obtain ⟨rest, derives⟩ := exists_derives_of_productive proper.wellFormed.nodup
      fun name mem => all name (known name mem)
    obtain ⟨m, finite, -⟩ := exists_stateYield_of_derives derives
    rcases reach_cases g.yields word.length next with fits | ⟨-, infinite⟩
    · cases fails.symm.trans fits
    · cases finite.symm.trans infinite

end Overflow

/-! ## Trimming -/

variable [DecidableEq τ]

theorem generates_trimmed (nodup : g.nonterminals.Nodup) (begins : g.start = some start) :
    g.trimmed.Generates word ↔ g.Generates word := by
  rw [generates_iff (wellFormed_trimmed nodup).nodup, generates_iff nodup]
  by_cases productive : start ∈ g.yields.productive
  · rw [start_trimmed begins productive, begins]
    simp only [Option.some.injEq, exists_eq_left']
    exact derives_trimmed_of_mem nodup begins (start_mem_trimmed nodup begins productive)
  · rw [trimmed_of_not_productive begins productive, begins]
    simp only [Option.some.injEq, exists_eq_left']
    constructor
    · rintro ⟨_, ⟨⟩, -⟩
    · intro derives
      exact absurd ((g.mem_productive nodup).2 ⟨word, derives⟩) productive

/-- If there are no words, nothing is left, and nothing can fail. -/
theorem barren_trimmed (begins : g.start = some start) (barren : start ∉ g.yields.productive) :
    g.trimmed.shortestLengths = .ok [] ∧ ∀ budget, g.trimmed.derive budget = .ok [] := by
  rw [trimmed_of_not_productive begins barren]
  refine ⟨((settles_settle _ _).unique (.rests rfl)).symm, fun budget => ?_⟩
  rw [derive_of_initialState (show initialState _ = .ok none from rfl)]
  rfl

/-- The words are enumerated as before, and where they could not be they now are. -/
theorem derive_trimmed (wellFormed : g.WellFormed) (begins : g.start = some start)
    (forward : ¬ g.LeftRecursive) {table : Yields} (found : g.shortestLengths = .ok table)
    (budget : Int) : ∃ words, g.trimmed.derive budget = .ok words ∧
      (g.derive budget = .ok words ∨
        g.derive budget = .error (.conversion .decimalTooLarge) ∧ g.Overflows budget) := by
  have proper := wellFormed.proper forward
  have nodup := wellFormed.nodup
  by_cases productive : start ∈ g.yields.productive
  · refine ⟨g.enumerated start budget, ?_, ?_⟩
    · have clear : ¬ g.trimmed.Overflows budget :=
        not_overflows proper.trimmed (exists_shortestLengths_trimmed nodup begins productive found)
          fun name left => productive_trimmed nodup begins left
      rcases derive_cases proper.trimmed (start_trimmed begins productive) budget with
        ⟨derived, -⟩ | ⟨-, overflows⟩
      · rw [derived, enumerated_trimmed proper begins productive]
      · exact absurd overflows clear
    · rcases derive_cases proper begins budget with ⟨derived, -⟩ | fails
      · exact .inl derived
      · exact .inr fails
  · refine ⟨[], (barren_trimmed begins productive).2 budget, ?_⟩
    rcases derive_cases proper begins budget with ⟨derived, -⟩ | fails
    · have none : g.enumerated start budget = [] := by
        refine List.eq_nil_iff_forall_not_mem.2 fun word mem => productive ?_
        obtain ⟨-, -, words⟩ := enumerated_exact proper start budget
        exact (g.mem_productive nodup).2 ⟨word, ((words word).1 mem).1⟩
      exact .inl (none ▸ derived)
    · exact .inr fails

/-- Trimming keeps the language, and of the nonterminals and productions those that take part in a
derivation of a word. Each nonterminal that is left is productive and reachable by what is left, and
its shortest words are as long as before. There is nothing left to trim. Words are enumerated in the
same order, if that is possible at all; the trimmed grammar can be enumerated even where a length of
the whole grammar is out of range. Trimming fails if the shortest lengths are out of range, for
which more than 1025 nonterminals are needed. -/
theorem trim_exact (wellFormed : g.WellFormed) (begins : g.start = some start) :
    (∃ trimmed table lengths, g.trim = .ok trimmed ∧ g.shortestLengths = .ok table ∧
      trimmed.shortestLengths = .ok lengths ∧
      (∀ word, trimmed.Generates word ↔ g.Generates word) ∧
      (∀ name, name ∈ trimmed.nonterminals ↔ g.Useful name) ∧
      (∀ p, p ∈ trimmed.allProductions ↔ g.UsefulProduction p) ∧
      (∀ name ∈ trimmed.nonterminals, name ∈ lengths.productive ∧ name ∈ trimmed.reachable ∧
        lengths.of name = table.of name) ∧
      trimmed.trim = .ok trimmed ∧
      (¬ g.LeftRecursive → ¬ trimmed.LeftRecursive ∧
        ∀ budget, ∃ words, trimmed.derive budget = .ok words ∧
          (g.derive budget = .ok words ∨
            g.derive budget = .error (.conversion .decimalTooLarge) ∧ g.Overflows budget))) ∨
    (g.trim = .error (.conversion .decimalTooLarge) ∧
      g.shortestLengths = .error (.conversion .decimalTooLarge) ∧
      1025 < g.nonterminals.length) := by
  have nodup := wellFormed.nodup
  rcases shortestLengths_cases wellFormed with ⟨table, found, -⟩ | ⟨fails, many⟩
  · left
    have sound := wellFormed_trimmed nodup
    obtain ⟨lengths, left⟩ : ∃ lengths, g.trimmed.shortestLengths = .ok lengths := by
      by_cases productive : start ∈ g.yields.productive
      · exact exists_shortestLengths_trimmed nodup begins productive found
      · exact ⟨_, (barren_trimmed begins productive).1⟩
    have again : g.trimmed.trim = .ok g.trimmed := by
      rw [trim_of_shortestLengths sound left, trimmed_trimmed nodup begins]
    have forward (forward : ¬ g.LeftRecursive) := derive_trimmed wellFormed begins forward found
    have before := eq_yields_of_shortestLengths wellFormed found
    have after := eq_yields_of_shortestLengths sound left
    subst before after
    refine ⟨g.trimmed, _, _, trim_of_shortestLengths wellFormed found, found, left,
      fun word => generates_trimmed nodup begins,
      fun name => mem_nonterminals_trimmed_iff_useful nodup begins,
      fun p => mem_allProductions_trimmed_iff_useful nodup begins, fun name mem => ?_, again,
      fun none => ⟨not_leftRecursive_trimmed none, forward none⟩⟩
    exact ⟨productive_trimmed nodup begins mem, reachable_trimmed nodup begins mem,
      yields_trimmed nodup begins mem⟩
  · exact .inr ⟨trim_of_error fails, fails, many⟩

/-- Two letters in a row. Nothing comes after `b` but more of it, and nothing leads to `c`. -/
def surplus : Grammar Char where
  name := .text "surplus"
  rules := [(.int 0, [.edge 'b' (some (.int 2)), .concat (.int 1) (.int 1)]),
    (.int 1, [.edge 'a' none]), (.int 2, [.edge 'b' (some (.int 2))]), (.int 3, [.edge 'c' none])]
  terminals := ['a', 'b', 'c']
  start := some (.int 0)

theorem wellFormed_surplus : surplus.WellFormed := by
  constructor
  · decide
  · simp [surplus, Body.nonterminals, nonterminals]

theorem not_leftRecursive_surplus : ¬ surplus.LeftRecursive :=
  (proper_of_checkLeftRecursion wellFormed_surplus (by cbv)).not_leftRecursive

theorem trim_exact_surplus :
    surplus.WellFormed ∧ surplus.Useful (.int 1) ∧ ¬ surplus.Useful (.int 2) ∧
      ¬ surplus.Useful (.int 3) ∧ ∃ trimmed table lengths, surplus.trim = .ok trimmed ∧
        surplus.shortestLengths = .ok table ∧ trimmed.shortestLengths = .ok lengths ∧
        lengths.of (.int 0) = table.of (.int 0) ∧ trimmed.trim = .ok trimmed ∧
        ∃ words, trimmed.derive 2 = .ok words ∧ surplus.derive 2 = .ok words := by
  have left : ∃ trimmed, surplus.trim = .ok trimmed ∧ trimmed.nonterminals = [.int 0, .int 1] :=
    ⟨surplus.trimTo [.int 0, .int 1], by cbv, by decide +kernel⟩
  obtain ⟨kept, done, names⟩ := left
  rcases trim_exact wellFormed_surplus rfl with
    ⟨trimmed, table, lengths, same, before, after, -, useful, -, each, again, forward⟩ |
    ⟨-, -, many⟩
  · cases done.symm.trans same
    rw [names] at useful each
    refine ⟨wellFormed_surplus, (useful _).1 (by decide), ?_, ?_, kept, table, lengths, done,
      before, after, (each _ (by decide)).2.2, again, ?_⟩
    · rw [← useful]
      decide
    · rw [← useful]
      decide
    · obtain ⟨words, derived, whole | ⟨-, overflows⟩⟩ := (forward not_leftRecursive_surplus).2 2
      · exact ⟨words, derived, whole⟩
      · have proper := wellFormed_surplus.proper not_leftRecursive_surplus
        rcases overflows.large proper with many | long
        · exact absurd many (by decide)
        · exact absurd long (not_le.2 (lt_self_pow₀ (by decide) (by decide)))
  · exact absurd many (by decide)

/-- With 1026 nonterminals a grammar need not be trimmed, although it has a word and is not
left-recursive. -/
theorem trim_thousand_doublings :
    (doublingFromZero 1024).WellFormed ∧ (doublingFromZero 1024).Generates ['t'] ∧
      (doublingFromZero 1024).trim = .error (.conversion .decimalTooLarge) :=
  ⟨wellFormed_doublingFromZero 1024, generates_doublingFromZero_iff.2 rfl,
    trim_of_error shortestLengths_doublingFromZero⟩

end ZeroRun.Grammar
