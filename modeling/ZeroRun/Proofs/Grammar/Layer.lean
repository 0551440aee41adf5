import Mathlib
import ZeroRun.Grammar.Enumerate
import ZeroRun.Proofs.Grammar.Step

/-! Layers of pending derivations. A layer holds, for every word that fits in the budget, a
derivation that has emitted its beginning and can still emit the rest, and the shortest completion
never drops it. So the layers, one after another, show all words of the language by increasing
length. -/
namespace ZeroRun

section
variable {α : Type} [DecidableEq α]

theorem foldl_addNew (items new : List α) :
    new.foldl Grammar.addNew items = items ++ (distinct new).filter (· ∉ items) := by
  induction new generalizing items with
  | nil => simp [distinct]
  | cons x new ih =>
    rw [List.foldl_cons, ih, Grammar.addNew, distinct]
    by_cases known : x ∈ items
    · rw [if_pos known, List.filter_cons_of_neg (by simpa using known), List.filter_filter]
      congr 1
      refine List.filter_congr fun y _ => ?_
      by_cases same : y = x <;> simp [same, known]
    · rw [if_neg known, List.filter_cons_of_pos (by simpa using known), List.filter_filter,
        List.append_assoc, List.singleton_append]
      congr 2
      refine List.filter_congr fun y _ => ?_
      simp [Bool.and_comm]

theorem distinct_eq_foldl (items : List α) : distinct items = items.foldl Grammar.addNew [] := by
  rw [foldl_addNew]
  simp

end

namespace Grammar

variable {τ : Type} {g : Grammar τ} {state rest : DerivationState τ} {word : List τ} {budget : Int}
  {table : Yields}

/-- Can a pending derivation be completed within the budget? -/
def fits (table : Yields) (budget : Int) (item : Pending τ) : Bool :=
  !(Length.add (some item.2.length) (stateYield table item.1)).exceeds budget

theorem fits_iff : fits g.yields budget (state, word) = true ↔
    ∃ rest, g.Derives state rest ∧ ((word.length + rest.length : Nat) : Int) ≤ budget := by
  rw [fits, Bool.not_eq_true']
  constructor
  · intro within
    cases least : stateYield g.yields state with
    | none => simp [least, Length.add, Length.exceeds] at within
    | some m =>
      obtain ⟨rest, derives, rfl⟩ := exists_derives_of_stateYield least
      refine ⟨rest, derives, ?_⟩
      simpa [least, Length.add, Length.exceeds] using within
  · rintro ⟨rest, derives, short⟩
    obtain ⟨m, least, shorter⟩ := exists_stateYield_of_derives derives
    simp only [least, Length.add, Length.exceeds, decide_eq_false_iff_not]
    omega

variable [DecidableEq τ] {start : DerivationState τ} {length : Nat} {layer : List (Pending τ)}

/-- The pending derivations after one more terminal. -/
def followers (g : Grammar τ) (item : Pending τ) : List (Pending τ) :=
  (g.steps item.1).map fun step => (step.2, item.2 ++ [step.1])

/-- The words of a layer whose derivations are complete. -/
def layerWords (g : Grammar τ) (layer : List (Pending τ)) : List (List τ) :=
  distinct ((layer.filter fun item => g.completes item.1).map Prod.snd)

/-- The layer after one more terminal. -/
def nextLayer (g : Grammar τ) (table : Yields) (budget : Int) (layer : List (Pending τ)) :
    List (Pending τ) :=
  distinct ((layer.flatMap g.followers).filter (fits table budget))

/-- The words of a number of layers. -/
def wordsFrom (g : Grammar τ) (table : Yields) (budget : Int) :
    (layers : Nat) → List (Pending τ) → List (List τ)
  | 0, _ => []
  | layers + 1, layer =>
    g.layerWords layer ++ wordsFrom g table budget layers (g.nextLayer table budget layer)

theorem wordsFrom_nil (g : Grammar τ) (table : Yields) (budget : Int) (layers : Nat) :
    g.wordsFrom table budget layers [] = [] := by
  induction layers with
  | zero => rfl
  | succ layers ih => exact ih

theorem mem_followers {item : Pending τ} :
    (rest, word) ∈ g.followers item ↔ ∃ t, (t, rest) ∈ g.steps item.1 ∧ item.2 ++ [t] = word := by
  rw [followers, List.mem_map]
  constructor
  · rintro ⟨⟨t, _⟩, step, same⟩
    cases same
    exact ⟨t, step, rfl⟩
  · rintro ⟨t, step, rfl⟩
    exact ⟨(t, rest), step, rfl⟩

theorem mem_nextLayer :
    (rest, word) ∈ g.nextLayer table budget layer ↔
      (∃ state before t, (state, before) ∈ layer ∧ (t, rest) ∈ g.steps state ∧
        before ++ [t] = word) ∧ fits table budget (rest, word) = true := by
  simp only [nextLayer, mem_distinct, List.mem_filter, List.mem_flatMap, mem_followers, Prod.exists]
  refine and_congr_left fun _ => ?_
  constructor
  · rintro ⟨state, before, mem, t, step⟩
    exact ⟨state, before, t, mem, step⟩
  · rintro ⟨state, before, t, mem, step⟩
    exact ⟨state, before, mem, t, step⟩

/-- The pending derivations of a layer: they have emitted as many terminals, each belongs to a
derivation from the start, and each word within the budget has one. -/
structure Pends (g : Grammar τ) (start : DerivationState τ) (budget : Int) (length : Nat)
    (layer : List (Pending τ)) : Prop where
  emitted : ∀ state word, (state, word) ∈ layer → word.length = length
  sound : ∀ state word, (state, word) ∈ layer →
    ∀ rest, g.Derives state rest → g.Derives start (word ++ rest)
  complete : ∀ word rest, word.length = length → ((word ++ rest).length : Int) ≤ budget →
    g.Derives start (word ++ rest) → ∃ state, (state, word) ∈ layer ∧ g.Derives state rest

omit [DecidableEq τ] in
theorem pends_start (g : Grammar τ) (start : DerivationState τ) (budget : Int) :
    g.Pends start budget 0 [(start, [])] where
  emitted state word mem := by
    cases List.mem_singleton.1 mem
    rfl
  sound state word mem rest derives := by
    cases List.mem_singleton.1 mem
    exact derives
  complete word rest empty _ derives := by
    obtain rfl := List.eq_nil_of_length_eq_zero empty
    exact ⟨start, List.mem_singleton_self _, derives⟩

theorem length_of_mem_nextLayer
    (emitted : ∀ state word, (state, word) ∈ layer → word.length = length)
    (state : DerivationState τ) (word : List τ)
    (mem : (state, word) ∈ g.nextLayer table budget layer) :
    word.length = length + 1 := by
  obtain ⟨⟨before, earlier, t, old, -, rfl⟩, -⟩ := mem_nextLayer.1 mem
  rw [List.length_append, emitted before earlier old]
  rfl

theorem length_of_mem_layerWords
    (emitted : ∀ state word, (state, word) ∈ layer → word.length = length)
    (mem : word ∈ g.layerWords layer) : word.length = length := by
  obtain ⟨⟨state, _⟩, inside, rfl⟩ := List.mem_map.1 (mem_distinct.1 mem)
  exact emitted _ _ (List.mem_filter.1 inside).1

theorem le_length_of_mem_wordsFrom {layers : Nat}
    (emitted : ∀ state word, (state, word) ∈ layer → word.length = length)
    (mem : word ∈ g.wordsFrom table budget layers layer) : length ≤ word.length := by
  induction layers generalizing length layer with
  | zero => cases mem
  | succ layers ih =>
    rcases List.mem_append.1 mem with here | later
    · exact (length_of_mem_layerWords emitted here).ge
    · exact (Nat.le_succ _).trans (ih (length_of_mem_nextLayer emitted) later)

/-- One more terminal is emitted. -/
theorem Pends.next (pends : g.Pends start budget length layer) (proper : g.Proper) :
    g.Pends start budget (length + 1) (g.nextLayer g.yields budget layer) where
  emitted := length_of_mem_nextLayer pends.emitted
  sound state word mem rest derives := by
    obtain ⟨⟨before, emitted, t, old, step, rfl⟩, -⟩ := mem_nextLayer.1 mem
    rw [List.append_assoc]
    exact pends.sound before emitted old _ ((derives_cons_iff proper).2 ⟨state, step, derives⟩)
  complete word rest size within derives := by
    obtain ⟨emitted, t, rfl⟩ : ∃ emitted t, word = emitted ++ [t] := by
      have ne : word ≠ [] := List.ne_nil_of_length_eq_add_one size
      exact ⟨_, _, (List.dropLast_append_getLast ne).symm⟩
    have shorter : emitted.length = length := by
      rw [List.length_append] at size
      exact Nat.succ.inj size
    have early := within
    rw [List.append_assoc] at derives early
    obtain ⟨before, old, derives⟩ := pends.complete emitted _ shorter early derives
    obtain ⟨state, step, derives⟩ := (derives_cons_iff proper).1 derives
    refine ⟨state, mem_nextLayer.2 ⟨⟨before, emitted, t, old, step, rfl⟩, ?_⟩, derives⟩
    rw [List.length_append] at within
    exact fits_iff.2 ⟨rest, derives, within⟩

/-- A layer shows all words of its length. -/
theorem Pends.mem_layerWords (pends : g.Pends start budget length layer) (proper : g.Proper)
    (within : (length : Int) ≤ budget) :
    word ∈ g.layerWords layer ↔ g.Derives start word ∧ word.length = length := by
  simp only [layerWords, mem_distinct, List.mem_map, List.mem_filter]
  constructor
  · rintro ⟨⟨state, _⟩, ⟨mem, complete⟩, rfl⟩
    refine ⟨?_, pends.emitted _ _ mem⟩
    simpa using pends.sound _ _ mem [] ((completes_iff proper).1 complete)
  · rintro ⟨derives, size⟩
    obtain ⟨state, mem, complete⟩ := pends.complete word [] size (by simpa [size] using within)
      (by simpa using derives)
    exact ⟨(state, word), ⟨mem, (completes_iff proper).2 complete⟩, rfl⟩

/-- The words from a layer on, by increasing length and without repetition. -/
theorem Pends.wordsFrom (pends : g.Pends start budget length layer) (proper : g.Proper)
    {layers : Nat} (last : ((length + layers : Nat) : Int) = budget + 1) :
    let words := g.wordsFrom g.yields budget layers layer
    words.Pairwise (fun u v => u.length ≤ v.length) ∧ words.Nodup ∧
      ∀ word, word ∈ words ↔
        g.Derives start word ∧ length ≤ word.length ∧ (word.length : Int) ≤ budget := by
  induction layers generalizing length layer with
  | zero =>
    refine ⟨.nil, .nil, fun word => ⟨nofun, ?_⟩⟩
    rintro ⟨-, long, short⟩
    omega
  | succ layers ih =>
    obtain ⟨ordered, nodup, further⟩ := ih (pends.next proper) (by omega)
    have here : ∀ word, word ∈ g.layerWords layer ↔ g.Derives start word ∧ word.length = length :=
      fun word => pends.mem_layerWords proper (by omega)
    rw [Grammar.wordsFrom]
    refine ⟨List.pairwise_append.2 ⟨?_, ordered, ?_⟩, (nodup_distinct _).append nodup ?_, ?_⟩
    · apply List.pairwise_of_forall_mem_list
      intro u first v second
      exact (((here u).1 first).2.trans ((here v).1 second).2.symm).le
    · intro u first v second
      have size := ((here u).1 first).2
      have longer := ((further v).1 second).2.1
      omega
    · intro word first second
      have size := ((here word).1 first).2
      have longer := ((further word).1 second).2.1
      omega
    · intro word
      rw [List.mem_append, here, further]
      constructor
      · rintro (⟨derives, size⟩ | ⟨derives, longer, short⟩)
        · exact ⟨derives, size.ge, by omega⟩
        · exact ⟨derives, by omega, short⟩
      · rintro ⟨derives, long, short⟩
        by_cases size : word.length = length
        · exact .inl ⟨derives, size⟩
        · exact .inr ⟨derives, by omega, short⟩

end Grammar
end ZeroRun
