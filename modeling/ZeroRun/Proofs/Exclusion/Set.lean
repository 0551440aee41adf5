import Mathlib
import ZeroRun.Exclusion.Set
import ZeroRun.Proofs.Exclusion.LoopPattern
import ZeroRun.Proofs.Exclusion.Trie

/-! What a set of exclusions excludes: the words that begin with a recorded stem and the words of
the recorded patterns, and no others. -/
namespace ZeroRun.ExclusionSet

variable {set : ExclusionSet} {word : Word}

/-- The word begins with a recorded stem or belongs to a recorded pattern. -/
def Covers (set : ExclusionSet) (word : Word) : Prop :=
  (∃ stem ∈ set.trie.stems, stem <+: word) ∨ ∃ pattern ∈ set.patterns, pattern.Holds word

/-- A word is followed in the trie and in all patterns at once. -/
theorem foldlM_step (word : Word) :
    word.foldlM set.step set.start =
      (word.foldlM set.trie.step (.at 0)).map fun node =>
        ⟨node, set.patterns.map fun pattern => word.foldl pattern.step pattern.start⟩ := by
  induction word using List.reverseRecOn with
  | nil => rfl
  | append_singleton word letter ih =>
    rw [List.foldlM_append, List.foldlM_append, ih]
    cases word.foldlM set.trie.step (.at 0) with
    | none => rfl
    | some node =>
      simp [step, List.zipWith_map_right, List.zipWith_self]

/-- A word is blocked once a recorded stem has been read. -/
theorem foldlM_step_eq_none_iff (sound : set.trie.Sound) :
    word.foldlM set.step set.start = none ↔ ∃ stem ∈ set.trie.stems, stem <+: word := by
  rw [foldlM_step, Option.map_eq_none_iff, sound.blocked_iff]

/-- The state that a word leads to tells whether the word belongs to a recorded pattern. -/
theorem excludesWord_iff {state : ExclusionState}
    (reached : word.foldlM set.step set.start = some state) :
    set.excludesWord state = true ↔ ∃ pattern ∈ set.patterns, pattern.Holds word := by
  rw [foldlM_step] at reached
  obtain ⟨node, -, rfl⟩ := Option.map_eq_some_iff.1 reached
  simp only [excludesWord, List.zipWith_map_right, List.zipWith_self, List.any_map,
    List.any_eq_true, Function.comp_def, id_eq]
  exact exists_congr fun pattern => and_congr_right fun _ => LoopPattern.isMember_iff

/-- Reading a word tells exactly the covered words. -/
theorem excludes_iff (sound : set.trie.Sound) : set.excludes word = true ↔ set.Covers word := by
  rw [excludes, Covers, ← foldlM_step_eq_none_iff sound]
  cases reached : word.foldlM set.step set.start with
  | none => simp
  | some state => simp [excludesWord_iff reached]

/-- A stem of a word that is not covered can be recorded. -/
theorem recordStem_of_not_covers (sound : set.trie.Sound) {stem : Word} (ne : stem ≠ [])
    (begins : stem <+: word) (uncovered : ¬ set.Covers word) :
    ∃ next : ExclusionSet, set.recordStem stem = .ok (true, next) ∧ next.trie.Sound ∧
      next.trie.stems = set.trie.stems ++ [stem] ∧ next.patterns = set.patterns := by
  have fresh : set.trie.covers stem = false := by
    rw [← Bool.not_eq_true, sound.covers_iff]
    rintro ⟨other, recorded, shorter⟩
    exact uncovered (.inl ⟨other, recorded, shorter.trans begins⟩)
  obtain ⟨trie, added, next, stems⟩ := sound.add ne fresh
  exact ⟨{ set with trie }, by rw [recordStem, added]; rfl, next, stems, rfl⟩

/-- A pattern of a word that is not covered can be recorded. -/
theorem recordLoop_of_not_covers {pattern : LoopPattern} (holds : pattern.Holds word)
    (uncovered : ¬ set.Covers word) :
    set.recordLoop pattern = (true, { set with patterns := set.patterns ++ [pattern] }) := by
  rw [recordLoop, if_neg]
  exact fun recorded => uncovered (.inr ⟨pattern, recorded, holds⟩)

/-! ## Sets that come from recording -/

/-- The sets that recording leads to, from the empty one on. -/
inductive Recorded : ExclusionSet → Prop where
  | empty : Recorded {}
  | stem {set next : ExclusionSet} {stem : Word} {fresh : Bool} (before : Recorded set)
      (added : set.recordStem stem = .ok (fresh, next)) : Recorded next
  | loop {set : ExclusionSet} (pattern : LoopPattern) (before : Recorded set) :
      Recorded (set.recordLoop pattern).2

theorem sound_recordStem (sound : set.trie.Sound) {next : ExclusionSet} {stem : Word}
    {fresh : Bool} (added : set.recordStem stem = .ok (fresh, next)) : next.trie.Sound := by
  unfold recordStem at added
  by_cases empty : stem = []
  · simp [Trie.add, empty, bind, Except.bind] at added
  · cases covered : set.trie.covers stem with
    | true =>
      rw [Trie.add_of_covers empty covered] at added
      cases added
      exact sound
    | false =>
      obtain ⟨trie, recorded, grown, -⟩ := sound.add empty covered
      rw [recorded] at added
      cases added
      exact grown

theorem Recorded.sound (recorded : set.Recorded) : set.trie.Sound := by
  induction recorded with
  | empty => exact Trie.sound_empty
  | stem _ added ih => exact sound_recordStem ih added
  | loop pattern _ ih =>
    unfold recordLoop
    split <;> exact ih

/-- A stem that was new is counted. -/
theorem stemCount_of_recordStem {next : ExclusionSet} {stem : Word}
    (recorded : set.recordStem stem = .ok (true, next)) :
    next.stemCount = set.stemCount + 1 ∧ next.loopCount = set.loopCount := by
  unfold recordStem at recorded
  by_cases empty : stem = []
  · simp [Trie.add, empty, bind, Except.bind] at recorded
  · cases covered : set.trie.covers stem with
    | true =>
      rw [Trie.add_of_covers empty covered] at recorded
      cases recorded
    | false =>
      rw [Trie.add_of_not_covers empty covered] at recorded
      cases recorded
      exact ⟨List.length_append, rfl⟩

/-- A pattern that was new is counted. -/
theorem loopCount_of_recordLoop {next : ExclusionSet} {pattern : LoopPattern}
    (recorded : set.recordLoop pattern = (true, next)) :
    next.stemCount = set.stemCount ∧ next.loopCount = set.loopCount + 1 := by
  unfold recordLoop at recorded
  by_cases known : pattern ∈ set.patterns
  · rw [if_pos known] at recorded
    cases recorded
  · rw [if_neg known] at recorded
    cases recorded
    exact ⟨rfl, List.length_append⟩

end ZeroRun.ExclusionSet
