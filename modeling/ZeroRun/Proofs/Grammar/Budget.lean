import Mathlib
import ZeroRun.Proofs.Grammar.Enumerate

/-! Enumerations under two budgets. The layers of the smaller one are those of the larger without
the derivations that the smaller budget cannot complete. Such derivations never lead to one that it
can complete, so they can be left out of a layer before or after the next terminal is emitted, and
the rest stays in the same order. -/
namespace ZeroRun.Grammar

variable {τ : Type} [DecidableEq τ] {g : Grammar τ} {n m budget : Int}

/-! ## Derivations that fit -/

omit [DecidableEq τ] in
/-- What fits in a budget fits in a larger one. -/
theorem fits_mono (le : n ≤ m) {table : Yields} {item : Pending τ}
    (fitting : fits table n item = true) : fits table m item = true := by
  unfold fits at *
  cases total : Length.add (some item.2.length) (stateYield table item.1) with
  | none => simp [total, Length.exceeds] at fitting
  | some size =>
    simp only [total, Length.exceeds, Bool.not_eq_true', decide_eq_false_iff_not] at fitting ⊢
    omega

/-- What does not fit leads to nothing that fits. -/
theorem filter_followers_eq_nil (proper : g.Proper) {item : Pending τ}
    (long : fits g.yields budget item = false) :
    (g.followers item).filter (fits g.yields budget) = [] := by
  rw [List.filter_eq_nil_iff]
  rintro ⟨further, emitted⟩ mem fitting
  obtain ⟨t, step, rfl⟩ := mem_followers.1 mem
  obtain ⟨rest, derives, short⟩ := fits_iff.1 fitting
  have whole := (derives_cons_iff proper).2 ⟨further, step, derives⟩
  have fitting : fits g.yields budget (item.1, item.2) = true := by
    refine fits_iff.2 ⟨t :: rest, whole, ?_⟩
    rw [List.length_append, List.length_singleton] at short
    rw [List.length_cons]
    omega
  cases long.symm.trans fitting

/-! ## Layers -/

/-- Under a smaller budget the next layer is the same, without what does not fit. -/
theorem filter_nextLayer (proper : g.Proper) (le : n ≤ m) (layer : List (Pending τ)) :
    (g.nextLayer g.yields m layer).filter (fits g.yields n) =
      g.nextLayer g.yields n (layer.filter (fits g.yields n)) := by
  have narrower : ((layer.flatMap g.followers).filter (fits g.yields m)).filter (fits g.yields n) =
      (layer.flatMap g.followers).filter (fits g.yields n) := by
    rw [List.filter_filter]
    refine List.filter_congr fun item _ => ?_
    cases small : fits g.yields n item with
    | false => rfl
    | true => simp [fits_mono le small]
  rw [nextLayer, filter_distinct, narrower, nextLayer, List.filter_flatMap, List.filter_flatMap,
    flatMap_filter fun item _ => filter_followers_eq_nil proper]

/-- Complete derivations fit, so a layer shows the same words without the others. -/
theorem layerWords_filter (proper : g.Proper) {layer : List (Pending τ)}
    (within : ∀ item ∈ layer, (item.2.length : Int) ≤ n) :
    g.layerWords (layer.filter (fits g.yields n)) = g.layerWords layer := by
  rw [layerWords, List.filter_filter, layerWords]
  congr 2
  refine List.filter_congr ?_
  rintro ⟨state, word⟩ mem
  cases complete : g.completes state with
  | false => simp
  | true =>
    have fitting : fits g.yields n (state, word) = true :=
      fits_iff.2 ⟨[], (completes_iff proper).1 complete, within _ mem⟩
    simp [fitting]

/-! ## Enumerations -/

/-- Layers that agree in what fits show the same words up to the smaller budget. -/
theorem wordsFrom_eq_of_filter_eq (proper : g.Proper) (le : n ≤ m) {layers length : Nat}
    (last : ((length + layers : Nat) : Int) = n + 1) {small large : List (Pending τ)}
    (shorter : ∀ state word, (state, word) ∈ small → word.length = length)
    (longer : ∀ state word, (state, word) ∈ large → word.length = length)
    (agree : small.filter (fits g.yields n) = large.filter (fits g.yields n)) :
    g.wordsFrom g.yields n layers small = g.wordsFrom g.yields m layers large := by
  induction layers generalizing length small large with
  | zero => rfl
  | succ layers ih =>
    have within {layer : List (Pending τ)}
        (emitted : ∀ state word, (state, word) ∈ layer → word.length = length) :
        ∀ item ∈ layer, (item.2.length : Int) ≤ n := by
      intro item mem
      have size := emitted item.1 item.2 mem
      omega
    have words : g.layerWords small = g.layerWords large := by
      rw [← layerWords_filter proper (within shorter), agree,
        layerWords_filter proper (within longer)]
    have further : (g.nextLayer g.yields n small).filter (fits g.yields n) =
        (g.nextLayer g.yields m large).filter (fits g.yields n) := by
      rw [filter_nextLayer proper le_rfl, filter_nextLayer proper le, agree]
    rw [wordsFrom, wordsFrom, words, ih (by omega) (length_of_mem_nextLayer shorter)
      (length_of_mem_nextLayer longer) further]

theorem wordsFrom_prefix (g : Grammar τ) (table : Yields) (budget : Int) (layers more : Nat)
    (layer : List (Pending τ)) :
    g.wordsFrom table budget layers layer <+: g.wordsFrom table budget (layers + more) layer := by
  induction layers generalizing layer with
  | zero => exact List.nil_prefix
  | succ layers ih =>
    rw [Nat.add_right_comm, wordsFrom, wordsFrom]
    exact (List.prefix_append_right_inj _).2 (ih _)

/-- The words up to a smaller budget come first. -/
theorem enumerated_prefix (proper : g.Proper) (start : Ident) (le : n ≤ m) :
    g.enumerated start n <+: g.enumerated start m := by
  unfold enumerated
  split
  · rename_i some
    simp only [Bool.and_eq_true, decide_eq_true_eq] at some
    rw [if_pos (by simpa using ⟨some.1, some.2.trans le⟩)]
    have last : ((0 + (n.toNat + 1) : Nat) : Int) = n + 1 := by omega
    have emitted := (g.pends_start [.nonterminal start] n).emitted
    have first := g.wordsFrom_prefix g.yields m (n.toNat + 1) (m.toNat - n.toNat)
      [([.nonterminal start], [])]
    rwa [← wordsFrom_eq_of_filter_eq proper le last emitted emitted rfl,
      show n.toNat + 1 + (m.toNat - n.toNat) = m.toNat + 1 by omega] at first
  · exact List.nil_prefix

/-- With a smaller budget the enumeration is the same up to its length, and stops there. If the
larger budget can be dealt with, the smaller one can. -/
theorem derive_initial_segment (wellFormed : g.WellFormed) {start : Ident}
    (begins : g.start = some start) (forward : ¬ g.LeftRecursive) (le : n ≤ m) :
    (∃ short long, g.derive n = .ok short ∧ g.derive m = .ok long ∧ short <+: long ∧
      short = long.filter fun word => (word.length : Int) ≤ n) ∨
    (g.derive m = .error (.conversion .decimalTooLarge) ∧ g.Overflows m ∧
      (1000 < g.nonterminals.length ∨ 2 ^ 1023 ≤ m)) := by
  have proper := wellFormed.proper forward
  rcases derive_cases proper begins m with ⟨larger, clear⟩ | ⟨fails, overflows⟩
  · rcases derive_cases proper begins n with ⟨smaller, -⟩ | ⟨-, overflows⟩
    · have first := enumerated_prefix proper start le
      obtain ⟨-, -, short⟩ := enumerated_exact proper start n
      obtain ⟨-, nodup, long⟩ := enumerated_exact proper start m
      refine .inl ⟨_, _, smaller, larger, first, eq_filter_of_prefix first nodup fun word mem => ?_⟩
      rw [decide_eq_true_eq, short]
      exact (and_iff_right ((long word).1 mem).1).symm
    · exact absurd (overflows.mono le) clear
  · exact .inr ⟨fails, overflows, overflows.large proper⟩

/-- One terminal is enough for the letter, but not for the brackets. -/
theorem derive_initial_segment_brackets :
    brackets.WellFormed ∧ ¬ brackets.LeftRecursive ∧
      ∃ short long, brackets.derive 1 = .ok short ∧ brackets.derive 2 = .ok long ∧ short <+: long ∧
        short = long.filter fun word => (word.length : Int) ≤ 1 := by
  refine ⟨built_brackets.wellFormed, not_leftRecursive_brackets, ?_⟩
  have segment := derive_initial_segment (n := 1) (m := 2) built_brackets.wellFormed rfl
    not_leftRecursive_brackets (by decide)
  rcases segment with segment | ⟨-, -, many | long⟩
  · exact segment
  · exact absurd many (by decide)
  · exact absurd long (not_le.2 (lt_self_pow₀ (by decide) (by decide)))

/-- With 1026 nonterminals there need be no enumeration to begin with, although the word that fits
in the larger budget is the only one. -/
theorem derive_segments_of_thousand_doublings :
    (doublingFromZero 1024).WellFormed ∧ ¬ (doublingFromZero 1024).LeftRecursive ∧
      (∀ word, (doublingFromZero 1024).Generates word ↔ word = ['t']) ∧
      (doublingFromZero 1024).derive 0 = .error (.conversion .decimalTooLarge) ∧
      (doublingFromZero 1024).derive 1 = .error (.conversion .decimalTooLarge) := by
  have begins : (doublingFromZero 1024).start = some (.int 0) := rfl
  have fails := initialState_of_error begins shortestLengths_doublingFromZero
  exact ⟨wellFormed_doublingFromZero 1024, not_leftRecursive_doublingFromZero 1024,
    fun word => generates_doublingFromZero_iff, derive_of_error fails 0, derive_of_error fails 1⟩

end ZeroRun.Grammar
