import Mathlib
import ZeroRun.Proofs.Grammar.Overflow

/-! Moving a cursor through the layers of pending derivations. A cursor that is moved to its end
goes through the layers one after another and hands out the words of each, unless a step of a
derivation leads to a length that is out of range. A cursor that is left alone for a while goes on
where it was. -/
namespace ZeroRun.Grammar

/-! ## The steps of a layer -/

/-- A loop whose steps fail all in the same way. -/
theorem foldlM_cases {α σ ε : Type} {f : σ → α → Except ε σ} {next : σ → α → σ} {bad : α → Prop}
    {e : ε} (step : ∀ s x, f s x = .ok (next s x) ∧ ¬ bad x ∨ f s x = .error e ∧ bad x)
    (xs : List α) (s : σ) :
    (xs.foldlM f s = .ok (xs.foldl next s) ∧ ∀ x ∈ xs, ¬ bad x) ∨
      xs.foldlM f s = .error e ∧ ∃ x ∈ xs, bad x := by
  induction xs generalizing s with
  | nil => exact .inl ⟨rfl, by simp⟩
  | cons x xs ih =>
    rw [List.foldlM_cons]
    rcases step s x with ⟨done, good⟩ | ⟨fails, bad⟩
    · rw [done]
      rcases ih (next s x) with ⟨rest, all⟩ | ⟨rest, y, mem, bad⟩
      · exact .inl ⟨rest, List.forall_mem_cons.2 ⟨good, all⟩⟩
      · exact .inr ⟨rest, y, List.mem_cons_of_mem _ mem, bad⟩
    · rw [fails]
      exact .inr ⟨rfl, x, List.mem_cons_self, bad⟩

variable {τ : Type} [DecidableEq τ] {g : Grammar τ} {table : Yields} {budget : Int}

/-- A step of the pending derivation leads to a length that is out of range. -/
def Overruns (g : Grammar τ) (table : Yields) (item : Pending τ) : Prop :=
  ∃ step ∈ g.steps item.1,
    reach table item.2.length step.2 = .error (.conversion .decimalTooLarge)

theorem enqueue_cases (table : Yields) (budget : Int) (word : List τ) (upcoming : List (Pending τ))
    (step : Step τ) :
    enqueue table budget word upcoming step =
        .ok (if fits table budget (step.2, word ++ [step.1]) then
          addNew upcoming (step.2, word ++ [step.1]) else upcoming) ∧
        ¬ reach table word.length step.2 = .error (.conversion .decimalTooLarge) ∨
      enqueue table budget word upcoming step = .error (.conversion .decimalTooLarge) ∧
        reach table word.length step.2 = .error (.conversion .decimalTooLarge) := by
  unfold enqueue
  rcases reach_cases table word.length step.2 with found | ⟨fails, -⟩
  · left
    rw [found]
    refine ⟨?_, by simp⟩
    simp only [bind, Except.bind, fits, List.length_append, List.length_singleton]
    cases Length.exceeds (Length.add (some (word.length + 1)) (stateYield table step.2)) budget <;>
      rfl
  · right
    rw [fails]
    exact ⟨rfl, rfl⟩

theorem enqueueSteps_cases (g : Grammar τ) (table : Yields) (budget : Int)
    (upcoming : List (Pending τ)) (item : Pending τ) :
    g.enqueueSteps table budget upcoming item =
        .ok (((g.followers item).filter (fits table budget)).foldl addNew upcoming) ∧
        ¬ g.Overruns table item ∨
      g.enqueueSteps table budget upcoming item = .error (.conversion .decimalTooLarge) ∧
        g.Overruns table item := by
  rcases foldlM_cases (enqueue_cases table budget item.2) (g.steps item.1) upcoming with
    ⟨done, good⟩ | ⟨fails, step, mem, bad⟩
  · refine .inl ⟨?_, fun ⟨step, mem, bad⟩ => good step mem bad⟩
    rw [enqueueSteps, done, followers, List.foldl_filter, List.foldl_map]
  · exact .inr ⟨fails, step, mem, bad⟩

/-- Taking up the steps of all derivations of a layer gives the next one. -/
theorem foldlM_enqueueSteps_cases (g : Grammar τ) (table : Yields) (budget : Int)
    (layer : List (Pending τ)) :
    (layer.foldlM (g.enqueueSteps table budget) [] = .ok (g.nextLayer table budget layer) ∧
        ∀ item ∈ layer, ¬ g.Overruns table item) ∨
      layer.foldlM (g.enqueueSteps table budget) [] = .error (.conversion .decimalTooLarge) ∧
        ∃ item ∈ layer, g.Overruns table item := by
  rcases foldlM_cases (g.enqueueSteps_cases table budget) layer [] with ⟨done, good⟩ | fails
  · refine .inl ⟨?_, good⟩
    rw [done, nextLayer, distinct_eq_foldl, List.filter_flatMap, List.foldl_flatMap]
  · exact .inr fails

/-! ## Moving a cursor -/

namespace Cursor
variable {s : Snapshot τ} {c c' : Cursor τ} {b length : Nat} {waiting upcoming : List (Pending τ)}
  {emitted : List (List τ)}

/-- What holds of a cursor if it holds after its next move holds of all cursors. -/
theorem induct_moves {motive : Cursor τ → Prop} (s : Snapshot τ)
    (step : ∀ c, (∀ word c', c.move s = .ok (some (word, c')) → motive c') → motive c)
    (c : Cursor τ) : motive c := by
  have wf : WellFounded fun c' c : Cursor τ => Prod.Lex (· < ·) (· < ·)
      (c'.budget - c'.length, c'.pace) (c.budget - c.length, c.pace) :=
    InvImage.wf (fun c : Cursor τ => (c.budget - c.length, c.pace))
      (WellFounded.prod_lex Nat.lt_wfRel.wf Nat.lt_wfRel.wf)
  exact wf.induction c fun c ih => step c fun word c' moved => ih c' (move_decreases moved)

section Moves
variable {σ β : Type} {hear : σ → List τ → σ × Option β} {state : σ} {limit : Option Nat}
  (wanted : limit ≠ some 0)
include wanted

theorem collect_of_error {e : Error} (moved : c.move s = .error e) :
    c.collect s hear state limit = (.error e, .closed) := by
  rw [collect, if_neg wanted]
  split <;> simp_all

theorem collect_of_end (moved : c.move s = .ok none) :
    c.collect s hear state limit = (.ok [], .closed) := by
  rw [collect, if_neg wanted]
  split <;> simp_all

theorem collect_of_silent (moved : c.move s = .ok (some (none, c'))) :
    c.collect s hear state limit = c'.collect s hear state limit := by
  rw [collect, if_neg wanted]
  split <;> simp_all

theorem collect_of_unheard {word : List τ} {state' : σ}
    (moved : c.move s = .ok (some (some word, c'))) (heard : hear state word = (state', none)) :
    c.collect s hear state limit = c'.collect s hear state' limit := by
  rw [collect, if_neg wanted]
  split <;> simp_all

theorem collect_of_heard {word : List τ} {state' : σ} {item : β}
    (moved : c.move s = .ok (some (some word, c')))
    (heard : hear state word = (state', some item)) :
    c.collect s hear state limit =
      ((c'.collect s hear state' (limit.map (· - 1))).1.map (item :: ·),
        (c'.collect s hear state' (limit.map (· - 1))).2) := by
  rw [collect, if_neg wanted]
  split <;> simp_all

theorem collect_of_word {word : List τ} (moved : c.move s = .ok (some (some word, c'))) :
    c.collect s each () limit =
      ((c'.collect s each () (limit.map (· - 1))).1.map (word :: ·),
        (c'.collect s each () (limit.map (· - 1))).2) :=
  collect_of_heard wanted moved rfl

end Moves

/-- The words that a cursor hands out until its end. -/
def words (s : Snapshot τ) (c : Cursor τ) : Except Error (List (List τ)) :=
  (c.collect s each () none).1

theorem words_of_error {e : Error} (moved : c.move s = .error e) : c.words s = .error e := by
  rw [words, collect_of_error (by simp) moved]

theorem words_of_end (moved : c.move s = .ok none) : c.words s = .ok [] := by
  rw [words, collect_of_end (by simp) moved]

theorem words_of_silent (moved : c.move s = .ok (some (none, c'))) : c.words s = c'.words s := by
  rw [words, collect_of_silent (by simp) moved, words]

theorem words_of_word {word : List τ} (moved : c.move s = .ok (some (some word, c'))) :
    c.words s = (c'.words s).map (word :: ·) := by
  rw [words, collect_of_word (by simp) moved, words, Option.map_none]

/-- What is made of the words that are handed out. -/
def heard {σ β : Type} (hear : σ → List τ → σ × Option β) : σ → List (List τ) → List β
  | _, [] => []
  | state, word :: words =>
    (hear state word).2.toList ++ heard hear (hear state word).1 words

/-- Collecting is making something of the words. -/
theorem collect_eq_map_words {σ β : Type} (hear : σ → List τ → σ × Option β) (state : σ)
    (c : Cursor τ) : (c.collect s hear state none).1 = (c.words s).map (heard hear state) := by
  induction c using induct_moves s generalizing state with
  | step c ih =>
    match moved : c.move s with
    | .error e => rw [collect_of_error (by simp) moved, words_of_error moved, Except.map]
    | .ok none => rw [collect_of_end (by simp) moved, words_of_end moved, Except.map, heard]
    | .ok (some (none, c')) =>
      rw [collect_of_silent (by simp) moved, words_of_silent moved, ih none c' moved]
    | .ok (some (some word, c')) =>
      have later := ih (some word) c' moved (hear state word).1
      rw [words_of_word moved]
      cases told : (hear state word).2 with
      | none =>
        rw [collect_of_unheard (by simp) moved (Prod.ext rfl told), later]
        cases c'.words s <;> simp [Except.map, heard, told]
      | some item =>
        rw [collect_of_heard (by simp) moved (Prod.ext rfl told), Option.map_none, later]
        cases c'.words s <;> simp [Except.map, heard, told]

/-- The words after a layer. -/
def turn (s : Snapshot τ) (b length : Nat) (upcoming : List (Pending τ)) :
    Except Error (List (List τ)) :=
  if upcoming.isEmpty || b ≤ length then .ok []
  else Cursor.words s ⟨b, length + 1, upcoming, none, [], []⟩

theorem words_nil :
    Cursor.words s ⟨b, length, [], none, emitted, upcoming⟩ = turn s b length upcoming := by
  rw [turn]
  split
  · rename_i last
    exact words_of_end (if_pos last)
  · rename_i more
    exact words_of_silent (if_neg more)

/-- A derivation hands out its word, if it is complete and the word is new, and adds its steps. -/
theorem words_cons (found : s.table = .ok table) (item : Pending τ) :
    let new := if s.grammar.completes item.1 && item.2 ∉ emitted then [item.2] else []
    Cursor.words s ⟨b, length, item :: waiting, none, emitted, upcoming⟩ =
      ((Cursor.withSteps s ⟨b, length, waiting, none, emitted ++ new, upcoming⟩ item).bind
        fun further => Cursor.words s ⟨b, length, waiting, none, emitted ++ new, further⟩).map
          (new ++ ·) := by
  intro new
  have held (emitted : List (List τ)) :
      Cursor.words s ⟨b, length, waiting, some item, emitted, upcoming⟩ =
        (Cursor.withSteps s ⟨b, length, waiting, none, emitted, upcoming⟩ item).bind
          fun further => Cursor.words s ⟨b, length, waiting, none, emitted, further⟩ := by
    cases taken : Cursor.withSteps s ⟨b, length, waiting, none, emitted, upcoming⟩ item with
    | error e =>
      refine words_of_error ?_
      exact congrArg (· >>= _) taken
    | ok further =>
      refine words_of_silent ?_
      exact congrArg (· >>= _) taken
  by_cases fresh : (s.grammar.completes item.1 && item.2 ∉ emitted) = true
  · have moved : Cursor.move s ⟨b, length, item :: waiting, none, emitted, upcoming⟩ =
        .ok (some (some item.2,
          ⟨b, length, waiting, some item, emitted ++ [item.2], upcoming⟩)) := by
      simp only [move, found, bind, Except.bind, fresh, if_true]
      rfl
    rw [words_of_word moved, held]
    simp only [new, if_pos fresh, List.singleton_append]
  · have moved : Cursor.move s ⟨b, length, item :: waiting, none, emitted, upcoming⟩ =
        .ok (some (none, ⟨b, length, waiting, some item, emitted, upcoming⟩)) := by
      simp only [move, found, bind, Except.bind, fresh]
      rfl
    rw [words_of_silent moved, held]
    simp only [new, if_neg fresh, List.append_nil, List.nil_append]
    generalize Except.bind _ _ = rest
    cases rest <;> rfl

theorem map_append_map {α : Type} (u v : List α) (x : Except Error (List α)) :
    (x.map (v ++ ·)).map (u ++ ·) = x.map (u ++ v ++ ·) := by
  cases x <;> simp [Except.map]

/-- A whole layer hands out its new words and adds the steps of all derivations. -/
theorem words_layer (found : s.table = .ok table) (waiting : List (Pending τ)) :
    Cursor.words s ⟨b, length, waiting, none, emitted, upcoming⟩ =
      ((if length = b then .ok upcoming
        else waiting.foldlM (s.grammar.enqueueSteps table b) upcoming).bind (turn s b length)).map
          ((s.grammar.layerWords waiting).filter (· ∉ emitted) ++ ·) := by
  induction waiting generalizing emitted upcoming with
  | nil =>
    have idle : (if length = b then .ok upcoming else
        List.foldlM (s.grammar.enqueueSteps table b) upcoming []) = .ok upcoming := ite_self _
    rw [words_nil, idle, Except.bind]
    cases turn s b length upcoming <;> rfl
  | cons item waiting ih =>
    rw [words_cons found]
    generalize fresh : (if s.grammar.completes item.1 && item.2 ∉ emitted then [item.2] else []) =
      new
    have shown : (s.grammar.layerWords (item :: waiting)).filter (· ∉ emitted) =
        new ++ (s.grammar.layerWords waiting).filter (· ∉ emitted ++ new) := by
      rw [← fresh, layerWords, layerWords, List.filter_cons]
      by_cases complete : s.grammar.completes item.1 = true
      · rw [if_pos complete, List.map_cons, distinct, List.filter_cons, List.filter_filter]
        by_cases old : item.2 ∈ emitted
        · rw [if_neg (by simpa using old), if_neg (by simp [old]), List.nil_append, List.append_nil]
          refine List.filter_congr fun word _ => ?_
          by_cases same : word = item.2 <;> simp [same, old]
        · rw [if_pos (by simpa using old), if_pos (by simp [complete, old]), List.singleton_append]
          congr 1
          refine List.filter_congr fun word _ => ?_
          by_cases same : word = item.2 <;> simp [same, old]
      · rw [if_neg complete, if_neg (by simp [complete]), List.append_nil, List.nil_append]
    have taken : Cursor.withSteps s ⟨b, length, waiting, none, emitted ++ new, upcoming⟩ item =
        if length = b then .ok upcoming else s.grammar.enqueueSteps table b upcoming item := by
      rw [withSteps, found]
      rfl
    rw [taken, shown]
    by_cases last : length = b
    · simp only [if_pos last, Except.bind, ih, map_append_map]
    · simp only [if_neg last, List.foldlM_cons, bind]
      cases s.grammar.enqueueSteps table b upcoming item with
      | error e => rfl
      | ok further =>
        simp only [Except.bind, ih, if_neg last, map_append_map]

end Cursor

/-! ## Layer after layer -/

variable {layers length : Nat} {layer : List (Pending τ)}

/-- A step of one of the coming layers leads to a length that is out of range. -/
def Stumbles (g : Grammar τ) (table : Yields) (budget : Int) :
    (layers : Nat) → List (Pending τ) → Prop
  | 0, _ => False
  | layers + 1, layer => (∃ item ∈ layer, g.Overruns table item) ∨
      Stumbles g table budget layers (g.nextLayer table budget layer)

theorem not_stumbles_nil (g : Grammar τ) (table : Yields) (budget : Int) (layers : Nat) :
    ¬ g.Stumbles table budget layers [] := by
  induction layers with
  | zero => exact id
  | succ layers ih =>
    rintro (⟨item, mem, -⟩ | later)
    · cases mem
    · exact ih later

/-- A cursor goes through the layers to the end of the budget. -/
theorem words_cases {s : Snapshot τ} {b : Nat} (found : s.table = .ok table)
    (last : length + layers = b) (layer : List (Pending τ)) :
    (Cursor.words s ⟨b, length, layer, none, [], []⟩ =
        .ok (s.grammar.wordsFrom table b (layers + 1) layer) ∧
        ¬ s.grammar.Stumbles table b layers layer) ∨
      Cursor.words s ⟨b, length, layer, none, [], []⟩ = .error (.conversion .decimalTooLarge) ∧
        s.grammar.Stumbles table b layers layer := by
  have all : (s.grammar.layerWords layer).filter (· ∉ ([] : List (List τ))) =
      s.grammar.layerWords layer := List.filter_eq_self.2 (by simp)
  rw [Cursor.words_layer found, all]
  induction layers generalizing length layer with
  | zero =>
    rw [if_pos (by omega), Except.bind, Cursor.turn]
    exact .inl ⟨rfl, id⟩
  | succ layers ih =>
    rw [if_neg (by omega)]
    rcases foldlM_enqueueSteps_cases s.grammar table b layer with ⟨done, good⟩ | ⟨fails, bad⟩
    · rw [done, Except.bind, wordsFrom]
      generalize upcoming : s.grammar.nextLayer table b layer = further
      have stumbles : s.grammar.Stumbles table b (layers + 1) layer ↔
          s.grammar.Stumbles table b layers further := by
        rw [← upcoming]
        refine or_iff_right ?_
        rintro ⟨item, mem, bad⟩
        exact good item mem bad
      rw [stumbles, Cursor.turn]
      cases further with
      | nil =>
        rw [if_pos (by simp), wordsFrom_nil]
        exact .inl ⟨rfl, s.grammar.not_stumbles_nil table b layers⟩
      | cons item further =>
        have all : (s.grammar.layerWords (item :: further)).filter (· ∉ ([] : List (List τ))) =
            s.grammar.layerWords (item :: further) := List.filter_eq_self.2 (by simp)
        rw [if_neg (by simp; omega), Cursor.words_layer found, all]
        have rest : length + 1 + layers = b := by omega
        rcases ih rest (item :: further) all with ⟨words, clear⟩ | ⟨fails, bad⟩
        · rw [words]
          exact .inl ⟨rfl, clear⟩
        · rw [fails]
          exact .inr ⟨rfl, bad⟩
    · rw [fails]
      exact .inr ⟨rfl, .inl bad⟩

/-- The steps of the coming layers are those of the derivations under way. -/
theorem stumbles_iff (holds : ∀ state word, (state, word) ∈ layer ↔
      g.Underway budget state word ∧ word.length = length) :
    g.Stumbles g.yields budget layers layer ↔
      ∃ state word t next, g.Underway budget state word ∧ length ≤ word.length ∧
        word.length < length + layers ∧ (t, next) ∈ g.steps state ∧
        reach g.yields word.length next = .error (.conversion .decimalTooLarge) := by
  induction layers generalizing length layer with
  | zero =>
    refine ⟨False.elim, ?_⟩
    rintro ⟨state, word, t, next, -, long, short, -⟩
    omega
  | succ layers ih =>
    have further : ∀ state word, (state, word) ∈ g.nextLayer g.yields budget layer ↔
        g.Underway budget state word ∧ word.length = length + 1 := by
      intro state word
      rw [mem_nextLayer]
      constructor
      · rintro ⟨⟨before, emitted, t, old, step, rfl⟩, fitting⟩
        obtain ⟨underway, rfl⟩ := (holds before emitted).1 old
        obtain ⟨rest, derives, short⟩ := fits_iff.1 fitting
        rw [List.length_append, List.length_singleton] at short
        exact ⟨.step underway step derives short, by simp⟩
      · rintro ⟨underway, size⟩
        cases underway with
        | start => simp at size
        | @step before _ emitted rest t underway step derives short =>
          rw [List.length_append, List.length_singleton, Nat.add_right_cancel_iff] at size
          refine ⟨⟨before, emitted, t, (holds _ _).2 ⟨underway, size⟩, step, rfl⟩, ?_⟩
          exact fits_iff.2 ⟨rest, derives, by simpa using short⟩
    rw [Stumbles, ih further]
    constructor
    · rintro (⟨⟨state, word⟩, mem, ⟨t, next⟩, step, fails⟩ |
        ⟨state, word, t, next, underway, long, short, rest⟩)
      · obtain ⟨underway, size⟩ := (holds state word).1 mem
        exact ⟨state, word, t, next, underway, by omega, by omega, step, fails⟩
      · exact ⟨state, word, t, next, underway, by omega, by omega, rest⟩
    · rintro ⟨state, word, t, next, underway, long, short, step, fails⟩
      by_cases here : word.length = length
      · exact .inl ⟨(state, word), (holds _ _).2 ⟨underway, here⟩, (t, next), step, fails⟩
      · exact .inr ⟨state, word, t, next, underway, by omega, by omega, step, fails⟩

/-! ## Going on after an interruption -/

omit [DecidableEq τ] in
theorem map_cons_append {word : List τ} {found : List (List τ)}
    (rest : Except Error (List (List τ))) :
    (rest.map (found ++ ·)).map (word :: ·) = rest.map (word :: found ++ ·) := by
  cases rest <;> rfl

namespace Cursor
variable {s : Snapshot τ} {c : Cursor τ} {found : List (List τ)}

/-- The first words are those that an enumeration without a limit begins with. -/
theorem collect_take (derived : c.words s = .ok found) (count : Nat) :
    (c.collect s each () (some count)).1 = .ok (found.take count) := by
  induction c using induct_moves s generalizing found count with
  | step c ih =>
    cases count with
    | zero =>
      rw [collect, if_pos rfl]
      rfl
    | succ count =>
      match moved : c.move s with
      | .error e => cases derived.symm.trans (words_of_error moved)
      | .ok none =>
        cases derived.symm.trans (words_of_end moved)
        rw [collect_of_end (by simp) moved, List.take_nil]
      | .ok (some (none, c')) =>
        rw [words_of_silent moved] at derived
        rw [collect_of_silent (by simp) moved, ih none c' moved derived]
      | .ok (some (some word, c')) =>
        rw [words_of_word moved] at derived
        cases later : c'.words s with
        | error e =>
          rw [later] at derived
          cases derived
        | ok others =>
          rw [later] at derived
          cases derived
          have rest := ih (some word) c' moved later count
          rw [collect_of_word (by simp) moved, List.take_succ_cons]
          exact congrArg (Except.map (word :: ·)) rest

/-- Going on after some words is the same as not stopping there. -/
theorem collect_add {count : Nat}
    (first : (c.collect { grammar := g } each () (some count)).1 = .ok found) (more : Nat) :
    c.collect { grammar := g } each () (some (count + more)) =
      (((c.collect { grammar := g } each () (some count)).2.take g more).1.map (found ++ ·),
        ((c.collect { grammar := g } each () (some count)).2.take g more).2) := by
  induction c using induct_moves { grammar := g } generalizing found count with
  | step c ih =>
    cases count with
    | zero =>
      have here : c.collect { grammar := g } each () (some 0) = (.ok [], .open c) := by
        rw [collect, if_pos rfl]
      rw [here] at first ⊢
      cases first
      rw [Nat.zero_add, Enumeration.take, Enumeration.collect]
      generalize c.collect _ each () (some more) = outcome
      obtain ⟨_ | _, after⟩ := outcome <;> rfl
    | succ count =>
      have wanted (n : Nat) : some (n + 1) ≠ some 0 := by simp
      rw [Nat.add_right_comm]
      match moved : c.move { grammar := g } with
      | .error e =>
        rw [collect_of_error (wanted _) moved] at first
        cases first
      | .ok none =>
        rw [collect_of_end (wanted _) moved] at first
        cases first
        rw [collect_of_end (wanted _) moved, collect_of_end (wanted _) moved]
        rfl
      | .ok (some (none, c')) =>
        rw [collect_of_silent (wanted _) moved] at first
        rw [collect_of_silent (wanted _) moved, collect_of_silent (wanted _) moved,
          Nat.add_right_comm]
        exact ih none c' moved first
      | .ok (some (some word, c')) =>
        rw [collect_of_word (wanted _) moved] at first
        rw [collect_of_word (wanted _) moved, collect_of_word (wanted _) moved]
        simp only [Option.map_some, Nat.add_sub_cancel] at first ⊢
        cases later : (c'.collect { grammar := g } each () (some count)).1 with
        | error e =>
          rw [later] at first
          cases first
        | ok others =>
          rw [later] at first
          cases first
          rw [ih (some word) c' moved later, map_cons_append]

end Cursor

end ZeroRun.Grammar
