import Mathlib
import ZeroRun.Exclusion.LoopPattern
import ZeroRun.Proofs.Sequence

/-! The automaton of a loop pattern recognises its words. After a word, the positions are exactly
those up to which the word can be read: some of the letters of a segment, after what may stand in
front of it. -/
namespace ZeroRun.LoopPattern

variable {pattern : LoopPattern} {p q : Position} {word : Word} {letter : Int}

/-- So many rounds of the cycle. -/
def rounds (pattern : LoopPattern) (n : Nat) : Word :=
  (List.replicate n pattern.cycle).flatten

theorem rounds_succ (pattern : LoopPattern) (n : Nat) :
    pattern.rounds (n + 1) = pattern.rounds n ++ pattern.cycle := by
  simp [rounds, List.replicate_succ']

/-- The words of the pattern. -/
def Holds (pattern : LoopPattern) (word : Word) : Prop :=
  ∃ n, word = pattern.stem ++ pattern.rounds n ++ pattern.tail

/-- The words that may stand in front of a segment. -/
def Opens (pattern : LoopPattern) : Segment → Word → Prop
  | .stem, word => word = []
  | .cycle, word | .tail, word => ∃ n, word = pattern.stem ++ pattern.rounds n

/-- The word can be read up to the position. -/
def Reaches (pattern : LoopPattern) (p : Position) (word : Word) : Prop :=
  p.offset ≤ (pattern.letters p.segment).length ∧
    ∃ before, pattern.Opens p.segment before ∧
      word = before ++ (pattern.letters p.segment).take p.offset

/-! ## Single steps -/

theorem mem_close {positions : List Position} :
    p ∈ pattern.close positions ↔ p ∈ positions ∨ ∃ q ∈ positions, p ∈ pattern.skips q := by
  simp [close, arrange, mem_distinct]

theorem mem_skips : p ∈ pattern.skips q ↔
    (p.offset = 0 ∧ (p.segment = .cycle ∨ p.segment = .tail) ∧
      (q = ⟨.stem, pattern.stem.length⟩ ∨ q = ⟨.cycle, pattern.cycle.length⟩)) ∨
    (p = ⟨.tail, 0⟩ ∧ q = ⟨.cycle, 0⟩) := by
  obtain ⟨segment, offset⟩ := p
  unfold skips
  split
  · rename_i ends
    cases segment <;> simp_all
  · split <;> simp_all

/-- What is reached without a letter can be read up to. -/
theorem Reaches.skip (reaches : pattern.Reaches q word) (mem : p ∈ pattern.skips q) :
    pattern.Reaches p word := by
  obtain ⟨segment, offset⟩ := p
  -- Wherever a skip leads, the word may stand in front of the segment.
  have opens : (∃ n, word = pattern.stem ++ pattern.rounds n) ∧ offset = 0 ∧ segment ≠ .stem := by
    obtain ⟨-, before, opens, rfl⟩ := reaches
    rcases mem_skips.1 mem with ⟨start, later, rfl | rfl⟩ | ⟨same, rfl⟩
    · refine ⟨⟨0, ?_⟩, start, by rcases later with rfl | rfl <;> simp⟩
      obtain rfl : before = [] := opens
      simp [letters, rounds]
    · refine ⟨?_, start, by rcases later with rfl | rfl <;> simp⟩
      obtain ⟨n, rfl⟩ := opens
      exact ⟨n + 1, by simp [letters, rounds_succ]⟩
    · obtain ⟨rfl, rfl⟩ := Position.mk.inj same
      obtain ⟨n, rfl⟩ := opens
      exact ⟨⟨n, by simp⟩, rfl, by simp⟩
  obtain ⟨opens, rfl, later⟩ := opens
  refine ⟨Nat.zero_le _, word, ?_, by simp⟩
  cases segment with
  | stem => exact absurd rfl later
  | cycle => exact opens
  | tail => exact opens

/-- One letter more leads to the next position of the segment. -/
theorem reaches_succ {segment : Segment} {k : Nat} :
    pattern.Reaches ⟨segment, k + 1⟩ (word ++ [letter]) ↔
      pattern.Reaches ⟨segment, k⟩ word ∧ (pattern.letters segment)[k]? = some letter := by
  constructor
  · rintro ⟨inside, before, opens, read⟩
    have inside : k < (pattern.letters segment).length := inside
    dsimp only at read
    rw [List.take_succ_eq_append_getElem inside, ← List.append_assoc] at read
    obtain ⟨rfl, last⟩ := List.append_inj' read rfl
    refine ⟨⟨inside.le, before, opens, rfl⟩, ?_⟩
    rw [List.getElem?_eq_getElem inside, List.cons.inj last |>.1]
  · rintro ⟨⟨-, before, opens, rfl⟩, next⟩
    obtain ⟨inside, rfl⟩ := List.getElem?_eq_some_iff.1 next
    refine ⟨inside, before, opens, ?_⟩
    rw [List.take_succ_eq_append_getElem inside, List.append_assoc]

/-- A word that may stand in front of a segment has been read up to the end of another. -/
theorem exists_reaches_of_opens {segment : Segment} (ne : word ≠ [])
    (opens : pattern.Opens segment word) :
    ∃ q : Position, q.offset ≠ 0 ∧ pattern.Reaches q word ∧
      (⟨segment, 0⟩ : Position) ∈ pattern.skips q := by
  have shape : segment ≠ .stem ∧ ∃ n, word = pattern.stem ++ pattern.rounds n := by
    cases segment with
    | stem => exact absurd opens ne
    | cycle => exact ⟨by simp, opens⟩
    | tail => exact ⟨by simp, opens⟩
  obtain ⟨later, n, rfl⟩ := shape
  have later : segment = .cycle ∨ segment = .tail := by cases segment <;> simp_all
  cases n with
  | zero =>
    have stem : pattern.stem ≠ [] := by simpa [rounds] using ne
    exact ⟨⟨.stem, pattern.stem.length⟩, by simpa using stem,
      ⟨le_rfl, [], rfl, by simp [letters, rounds]⟩, mem_skips.2 (.inl ⟨rfl, later, .inl rfl⟩)⟩
  | succ n =>
    exact ⟨⟨.cycle, pattern.cycle.length⟩, by simpa using pattern.cycle_ne_nil,
      ⟨le_rfl, _, ⟨n, rfl⟩, by simp [letters, rounds_succ]⟩,
      mem_skips.2 (.inl ⟨rfl, later, .inr rfl⟩)⟩

/-! ## Words -/

theorem mem_start : p ∈ pattern.start ↔ pattern.Reaches p [] := by
  rw [start, mem_close]
  constructor
  · have origin : pattern.Reaches ⟨.stem, 0⟩ [] := ⟨Nat.zero_le _, [], rfl, rfl⟩
    rintro (mem | ⟨q, mem, skipped⟩)
    · rw [List.mem_singleton.1 mem]
      exact origin
    · rw [List.mem_singleton.1 mem] at skipped
      exact origin.skip skipped
  · obtain ⟨segment, offset⟩ := p
    rintro ⟨inside, before, opens, empty⟩
    obtain ⟨rfl, rest⟩ := List.append_eq_nil_iff.1 empty.symm
    obtain rfl : offset = 0 := by
      have short := congrArg List.length rest
      rw [List.length_take, min_eq_left inside] at short
      exact short
    cases segment with
    | stem => exact .inl (by simp)
    | cycle | tail =>
      obtain ⟨n, whole⟩ := opens
      have stem := (List.append_eq_nil_iff.1 whole.symm).1
      exact .inr ⟨_, List.mem_singleton.2 rfl, mem_skips.2 (.inl (by simp [stem]))⟩

/-- After one more letter the positions are those up to which the longer word can be read. -/
theorem mem_step {positions : List Position}
    (known : ∀ q, q ∈ positions ↔ pattern.Reaches q word) :
    p ∈ pattern.step positions letter ↔ pattern.Reaches p (word ++ [letter]) := by
  have moved : ∀ q, (q ∈ positions.filterMap fun p =>
      if (pattern.letters p.segment)[p.offset]? = some letter then
        some { p with offset := p.offset + 1 } else none) ↔
      q.offset ≠ 0 ∧ pattern.Reaches q (word ++ [letter]) := by
    rintro ⟨segment, offset⟩
    simp only [List.mem_filterMap, Option.ite_none_right_eq_some, Option.some.injEq]
    constructor
    · rintro ⟨⟨segment', k⟩, mem, next, same⟩
      obtain ⟨rfl, rfl⟩ := Position.mk.inj same
      exact ⟨Nat.succ_ne_zero k, reaches_succ.2 ⟨(known _).1 mem, next⟩⟩
    · rintro ⟨positive, reaches⟩
      obtain ⟨k, rfl⟩ := Nat.exists_eq_succ_of_ne_zero positive
      obtain ⟨before, next⟩ := reaches_succ.1 reaches
      exact ⟨⟨segment, k⟩, (known _).2 before, next, rfl⟩
  rw [step, mem_close]
  simp only [moved]
  constructor
  · rintro (⟨-, reaches⟩ | ⟨q, ⟨-, reaches⟩, skipped⟩)
    · exact reaches
    · exact reaches.skip skipped
  · intro reaches
    obtain ⟨segment, offset⟩ := p
    cases offset with
    | succ k => exact .inl ⟨Nat.succ_ne_zero k, reaches⟩
    | zero =>
      obtain ⟨-, before, opens, read⟩ := reaches
      rw [List.take_zero, List.append_nil] at read
      obtain ⟨q, positive, reaches, skipped⟩ :=
        exists_reaches_of_opens (by simp) (read ▸ opens)
      exact .inr ⟨q, ⟨positive, reaches⟩, skipped⟩

/-- The positions after a word are those up to which it can be read. -/
theorem mem_foldl_step : p ∈ word.foldl pattern.step pattern.start ↔ pattern.Reaches p word := by
  induction word using List.reverseRecOn generalizing p with
  | nil => exact mem_start
  | append_singleton word letter ih =>
    rw [List.foldl_append]
    exact mem_step fun q => ih

/-- The automaton recognises the words of the pattern. -/
theorem isMember_iff : pattern.isMember word = true ↔ pattern.Holds word := by
  rw [isMember, isMatch, decide_eq_true_eq, mem_foldl_step]
  constructor
  · rintro ⟨-, before, ⟨n, rfl⟩, rfl⟩
    exact ⟨n, by simp [letters]⟩
  · rintro ⟨n, rfl⟩
    exact ⟨le_rfl, _, ⟨n, rfl⟩, by simp [letters]⟩

/-- Any three words make a pattern, unless the cycle is empty, however they overlap, and the words
it recognises are the stem, so many rounds of the cycle, and the tail. -/
theorem isMember_make_iff (stem cycle tail : Word) (ne : cycle ≠ []) :
    ∃ pattern, make stem cycle tail = .ok pattern ∧
      ∀ word, pattern.isMember word = true ↔
        ∃ n, word = stem ++ (List.replicate n cycle).flatten ++ tail := by
  refine ⟨⟨stem, cycle, tail, ne⟩, dif_pos ne, fun word => ?_⟩
  rw [isMember_iff]
  rfl

/-- Where all three segments are made of one letter, only the number of letters tells. -/
theorem isMember_make_ones : ∃ pattern, make [1] [1, 1] [1] = .ok pattern ∧
    pattern.isMember [1, 1, 1, 1] = true ∧ pattern.isMember [1, 1, 1, 1, 1] = false := by
  obtain ⟨pattern, made, member⟩ := isMember_make_iff [1] [1, 1] [1] (by decide)
  refine ⟨pattern, made, (member _).2 ⟨1, rfl⟩, ?_⟩
  rw [← Bool.not_eq_true, member]
  rintro ⟨n, read⟩
  have length := congrArg List.length read
  simp at length
  omega

/-! ## Sets of positions -/

/-- All positions in order. -/
def positions (pattern : LoopPattern) : List Position :=
  (List.range (pattern.stem.length + 1)).map (⟨.stem, ·⟩)
    ++ (List.range (pattern.cycle.length + 1)).map (⟨.cycle, ·⟩)
    ++ (List.range (pattern.tail.length + 1)).map (⟨.tail, ·⟩)

theorem length_positions :
    pattern.positions.length =
      pattern.stem.length + pattern.cycle.length + pattern.tail.length + 3 := by
  simp only [positions, List.length_append, List.length_map, List.length_range]
  omega

theorem le_iff {a b : Position} : a.le b = true ↔
    a.segment.number < b.segment.number ∨
      (a.segment.number = b.segment.number ∧ a.offset ≤ b.offset) := by
  simp [Position.le]

instance : Std.Antisymm fun a b : Position => a.le b = true where
  antisymm := by
    rintro ⟨s, i⟩ ⟨t, j⟩ first second
    simp only [le_iff] at first second
    have same : s.number = t.number ∧ i = j := by omega
    obtain ⟨segments, rfl⟩ := same
    cases s <;> cases t <;> simp_all [Segment.number]

theorem pairwise_positions : pattern.positions.Pairwise fun a b => a.le b = true := by
  have ascending : ∀ segment count, ((List.range count).map (Position.mk segment)).Pairwise
      fun a b => a.le b = true := by
    intro segment count
    rw [List.pairwise_map]
    refine List.pairwise_lt_range.imp fun less => ?_
    exact le_iff.2 (.inr ⟨rfl, less.le⟩)
  refine List.pairwise_append.2 ⟨List.pairwise_append.2 ⟨ascending _ _, ascending _ _, ?_⟩,
    ascending _ _, ?_⟩
  · intro a left b right
    obtain ⟨i, -, rfl⟩ := List.mem_map.1 left
    obtain ⟨j, -, rfl⟩ := List.mem_map.1 right
    exact le_iff.2 (.inl (by simp [Segment.number]))
  · intro a left b right
    obtain ⟨j, -, rfl⟩ := List.mem_map.1 right
    rcases List.mem_append.1 left with left | left
    all_goals
      obtain ⟨i, -, rfl⟩ := List.mem_map.1 left
      exact le_iff.2 (.inl (by simp [Segment.number]))

theorem pairwise_arrange (positions : List Position) :
    (arrange positions).Pairwise fun a b => a.le b = true := by
  refine List.Pairwise.sublist (distinct_sublist _) (List.pairwise_mergeSort ?_ ?_ positions)
  · intro a b c first second
    rw [le_iff] at first second ⊢
    omega
  · intro a b
    rw [Bool.or_eq_true, le_iff, le_iff]
    omega

theorem Reaches.mem_positions (reaches : pattern.Reaches p word) : p ∈ pattern.positions := by
  obtain ⟨segment, offset⟩ := p
  have inside := reaches.1
  cases segment <;> simpa [positions, letters] using inside

/-- After any word the positions are some of all positions, in order. -/
theorem foldl_step_sublist :
    (word.foldl pattern.step pattern.start).Sublist pattern.positions := by
  have arranged : ∃ positions, word.foldl pattern.step pattern.start = arrange positions := by
    induction word using List.reverseRecOn with
    | nil => exact ⟨_, rfl⟩
    | append_singleton word letter => exact ⟨_, by rw [List.foldl_append]; rfl⟩
  have inside : word.foldl pattern.step pattern.start ⊆ pattern.positions :=
    fun p mem => (mem_foldl_step.1 mem).mem_positions
  obtain ⟨positions, same⟩ := arranged
  rw [same] at inside ⊢
  exact List.sublist_of_subperm_of_pairwise (List.subperm_of_subset (nodup_distinct _) inside)
    (pairwise_arrange _) pairwise_positions

end ZeroRun.LoopPattern
