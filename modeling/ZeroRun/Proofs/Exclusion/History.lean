import Mathlib
import ZeroRun.Proofs.Exclusion.Set

/-! Sets of exclusions by their history. Whatever has been recorded, in whatever order, a set
excludes the words that begin with a stem that was new when it was recorded, and the words of the
patterns. A stem is new unless it begins with such a stem, a pattern unless it was recorded before,
and what is not new leaves the set as it is. -/
namespace ZeroRun

/-- What can be recorded: a stem that is not empty, or a loop pattern. -/
inductive Exclusion where
  | stem (letters : Word) (ne : letters ≠ [])
  | loop (pattern : LoopPattern)

/-- What was recorded, in order, each time with the answer whether it was new. -/
abbrev RecordingLog := List (Exclusion × Bool)

namespace RecordingLog

/-- The stem was recorded, and was new. -/
def AddsStem (log : RecordingLog) (stem : Word) : Prop :=
  ∃ ne, (Exclusion.stem stem ne, true) ∈ log

/-- The pattern was recorded. -/
def NamesLoop (log : RecordingLog) (pattern : LoopPattern) : Prop :=
  ∃ fresh, (Exclusion.loop pattern, fresh) ∈ log

end RecordingLog

namespace ExclusionSet
variable {set : ExclusionSet} {exclusion : Exclusion} {log : RecordingLog}

/-- Records an exclusion and says whether it was new. -/
def record (set : ExclusionSet) : Exclusion → Except Error (Bool × ExclusionSet)
  | .stem letters _ => set.recordStem letters
  | .loop pattern => .ok (set.recordLoop pattern)

/-- Records exclusions one after another. -/
def recordAll (set : ExclusionSet) : List Exclusion → Except Error (RecordingLog × ExclusionSet)
  | [] => .ok ([], set)
  | exclusion :: later =>
    match set.record exclusion with
    | .error e => .error e
    | .ok (fresh, next) =>
      match next.recordAll later with
      | .error e => .error e
      | .ok (log, final) => .ok ((exclusion, fresh) :: log, final)

/-! ## One recording -/

/-- The stem begins with a recorded one, or the pattern has been recorded. -/
def Knows (set : ExclusionSet) : Exclusion → Prop
  | .stem letters _ => ∃ stem ∈ set.trie.stems, stem <+: letters
  | .loop pattern => pattern ∈ set.patterns

/-- What is known already leaves the set as it is. -/
theorem record_of_knows (sound : set.trie.Sound) (known : set.Knows exclusion) :
    set.record exclusion = .ok (false, set) := by
  cases exclusion with
  | stem letters ne =>
    have covered : set.trie.covers letters = true := sound.covers_iff.2 known
    rw [record, recordStem, Trie.add_of_covers ne covered]
    rfl
  | loop pattern =>
    have old : pattern ∈ set.patterns := known
    rw [record, recordLoop, if_pos old]

/-- What is not known is recorded, at the end of the stems or of the patterns. -/
theorem record_of_not_knows (sound : set.trie.Sound) (unknown : ¬ set.Knows exclusion) :
    ∃ next : ExclusionSet, set.record exclusion = .ok (true, next) ∧ next.trie.Sound ∧
      (∀ stem, stem ∈ next.trie.stems ↔ stem ∈ set.trie.stems ∨ ∃ ne, .stem stem ne = exclusion) ∧
      ∀ pattern, pattern ∈ next.patterns ↔ pattern ∈ set.patterns ∨ .loop pattern = exclusion := by
  cases exclusion with
  | stem letters ne =>
    have uncovered : set.trie.covers letters = false := by
      rw [← Bool.not_eq_true, sound.covers_iff]
      exact unknown
    obtain ⟨trie, added, grown, stems⟩ := sound.add ne uncovered
    refine ⟨{ set with trie }, ?_, grown, fun stem => ?_, fun pattern => by simp⟩
    · rw [record, recordStem, added]
      rfl
    · rw [stems, List.mem_append, List.mem_singleton]
      refine or_congr_right ⟨?_, ?_⟩
      · rintro rfl
        exact ⟨ne, rfl⟩
      · rintro ⟨_, same⟩
        exact (Exclusion.stem.inj same)
  | loop pattern =>
    refine ⟨{ set with patterns := set.patterns ++ [pattern] }, ?_, sound, fun stem => by simp,
      fun other => by simp⟩
    have new : pattern ∉ set.patterns := unknown
    rw [record, recordLoop, if_neg new]

/-! ## Any number of recordings -/

/-- The set holds the stems of the log that were new, and its patterns. -/
structure Keeps (set : ExclusionSet) (log : RecordingLog) : Prop where
  sound : set.trie.Sound
  stems : ∀ stem, stem ∈ set.trie.stems ↔ log.AddsStem stem
  patterns : ∀ pattern, pattern ∈ set.patterns ↔ log.NamesLoop pattern

theorem keeps_empty : ({} : ExclusionSet).Keeps [] := by
  refine ⟨Trie.sound_empty, fun stem => ?_, fun pattern => ?_⟩
  · simp [RecordingLog.AddsStem]
  · simp [RecordingLog.NamesLoop]

/-- One more recording, and one more line of the log. -/
theorem Keeps.record (keeps : set.Keeps log) (exclusion : Exclusion) :
    ∃ fresh next, set.record exclusion = .ok (fresh, next) ∧
      next.Keeps (log ++ [(exclusion, fresh)]) := by
  by_cases known : set.Knows exclusion
  · refine ⟨false, set, record_of_knows keeps.sound known, keeps.sound, fun stem => ?_,
      fun pattern => ?_⟩
    · rw [keeps.stems]
      simp [RecordingLog.AddsStem]
    · rw [keeps.patterns]
      constructor
      · rintro ⟨fresh, mem⟩
        exact ⟨fresh, List.mem_append_left _ mem⟩
      · rintro ⟨fresh, mem⟩
        rcases List.mem_append.1 mem with old | new
        · exact ⟨fresh, old⟩
        · obtain ⟨rfl, -⟩ := Prod.mk.inj (List.mem_singleton.1 new)
          exact (keeps.patterns pattern).1 known
  · obtain ⟨next, recorded, sound, stems, patterns⟩ := record_of_not_knows keeps.sound known
    refine ⟨true, next, recorded, sound, fun stem => ?_, fun pattern => ?_⟩
    · rw [stems, keeps.stems]
      simp [RecordingLog.AddsStem, exists_or]
    · rw [patterns, keeps.patterns]
      simp [RecordingLog.NamesLoop, exists_or]

/-- Recording never fails, and the log tells what the set keeps. -/
theorem Keeps.recordAll (keeps : set.Keeps log) (exclusions : List Exclusion) :
    ∃ later final, set.recordAll exclusions = .ok (later, final) ∧
      later.map Prod.fst = exclusions ∧ final.Keeps (log ++ later) := by
  induction exclusions generalizing set log with
  | nil => exact ⟨[], set, rfl, rfl, by simpa using keeps⟩
  | cons exclusion exclusions ih =>
    obtain ⟨fresh, next, recorded, onward⟩ := keeps.record exclusion
    obtain ⟨later, final, rest, named, last⟩ := ih onward
    refine ⟨(exclusion, fresh) :: later, final, ?_, by simp [named], by simpa using last⟩
    rw [ExclusionSet.recordAll, recorded]
    simp only [rest]

/-! ## What the set says -/

/-- After any history, the set denotes what was recorded. A word is blocked if it begins with a stem
that was new, and what it leads to otherwise tells whether it belongs to one of the patterns; these
are the excluded words. A stem is new unless it begins with one that was new, a pattern unless it
was recorded before, and what is not new changes nothing. -/
theorem recordAll_denotes (exclusions : List Exclusion) :
    ∃ log set, ({} : ExclusionSet).recordAll exclusions = .ok (log, set) ∧
      log.map Prod.fst = exclusions ∧
      (∀ word : Word, word.foldlM set.step set.start = none ↔
        ∃ stem, log.AddsStem stem ∧ stem <+: word) ∧
      (∀ (word : Word) (state : ExclusionState), word.foldlM set.step set.start = some state →
        (set.excludesWord state = true ↔ ∃ pattern, log.NamesLoop pattern ∧ pattern.Holds word)) ∧
      (∀ word, set.excludes word = true ↔ (∃ stem, log.AddsStem stem ∧ stem <+: word) ∨
        ∃ pattern, log.NamesLoop pattern ∧ pattern.Holds word) ∧
      (∀ stem, stem ≠ [] → ∃ fresh next, set.recordStem stem = .ok (fresh, next) ∧
        (fresh = false ↔ ∃ earlier, log.AddsStem earlier ∧ earlier <+: stem) ∧
        (fresh = false → next = set)) ∧
      ∀ pattern, ∃ fresh next, set.recordLoop pattern = (fresh, next) ∧
        (fresh = false ↔ log.NamesLoop pattern) ∧ (fresh = false → next = set) := by
  obtain ⟨log, set, recorded, named, keeps⟩ := keeps_empty.recordAll exclusions
  rw [List.nil_append] at keeps
  refine ⟨log, set, recorded, named, fun word => ?_, fun word state reached => ?_, fun word => ?_,
    fun stem ne => ?_, fun pattern => ?_⟩
  · simp only [foldlM_step_eq_none_iff keeps.sound, keeps.stems]
  · simp only [excludesWord_iff reached, keeps.patterns]
  · simp only [excludes_iff keeps.sound, Covers, keeps.stems, keeps.patterns]
  · have known : set.Knows (.stem stem ne) ↔ ∃ earlier, log.AddsStem earlier ∧ earlier <+: stem := by
      simp only [Knows, keeps.stems]
    rw [← known]
    by_cases old : set.Knows (.stem stem ne)
    · exact ⟨false, set, record_of_knows keeps.sound old, iff_of_true rfl old, fun _ => rfl⟩
    · obtain ⟨next, added, -⟩ := record_of_not_knows keeps.sound old
      exact ⟨true, next, added, iff_of_false (by simp) old, by simp⟩
  · rw [← keeps.patterns, recordLoop]
    by_cases old : pattern ∈ set.patterns
    · rw [if_pos old]
      exact ⟨false, set, rfl, iff_of_true rfl old, fun _ => rfl⟩
    · rw [if_neg old]
      exact ⟨true, _, rfl, iff_of_false (by simp) old, by simp⟩

end ExclusionSet
end ZeroRun
