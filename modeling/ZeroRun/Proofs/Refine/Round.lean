import Mathlib
import ZeroRun.Proofs.Classification
import ZeroRun.Proofs.Refine.Step
import ZeroRun.Proofs.Search.Candidate

/-! What one round of the refinement loop can do. As long as no run is excluded, every run is a
candidate of the next search. So a round ends the query with the right answer, or excludes the
candidate it has found but no run, or raises a modulus that the counters of the candidate have
reached. It fails exactly if a number that it has to write has too many digits. -/
namespace ZeroRun

theorem length_le_of_not_shortlex {u v : Word} (first : ¬ Shortlex v u) : u.length ≤ v.length := by
  rw [Shortlex, not_or] at first
  exact not_lt.1 first.1

/-- Of two different words one comes first. -/
theorem eq_of_not_shortlex {u v : Word} (left : ¬ Shortlex u v) (right : ¬ Shortlex v u) :
    u = v := by
  simp only [Shortlex, not_or, not_and, not_lt] at left right
  have length : u.length = v.length := le_antisymm right.1 left.1
  exact le_antisymm (right.2 length.symm) (left.2 length)

theorem ModulusPolicy.lt_next (policy : ModulusPolicy) {modulus : Int} (two_le : 2 ≤ modulus)
    (peak : Int) : modulus < policy.next modulus peak := by
  cases policy with
  | double => simp only [next]; omega
  | increment => simp only [next]; omega
  | lcm =>
    simp only [next]
    split
    · assumption
    · omega

/-- The exclusions come from recording, and no run is excluded. -/
structure ExclusionSet.Safe (sys : CounterSystem) (set : ExclusionSet) : Prop where
  trie : set.trie.Sound
  keeps_runs : ∀ run, sys.IsRun run → ¬ set.Covers run

namespace ExclusionSet
variable {sys : CounterSystem} {set : ExclusionSet} {word : Word}

theorem safe_empty (sys : CounterSystem) : Safe sys {} :=
  ⟨Trie.sound_empty, fun run _ covered => by simp [Covers] at covered⟩

/-- Every run is a candidate, at any modulus. -/
theorem Safe.candidate_of_isRun (safe : set.Safe sys) (modulus : Int) (run : sys.IsRun word) :
    sys.Candidate modulus set word := by
  refine ⟨run.1, run.travels, fun x mem => ?_, safe.keeps_runs word run⟩
  rw [run.total_eq] at mem
  simp [List.eq_of_mem_replicate mem]

/-- Excluding words that hold no run keeps all runs. -/
theorem Safe.grow (safe : set.Safe sys) {more : ExclusionSet} (sound : more.trie.Sound)
    {further : Word → Prop}
    (covers : ∀ other, more.Covers other ↔ set.Covers other ∨ further other)
    (certified : ∀ run, sys.IsRun run → ¬ further run) (inside : further word) :
    more.Safe sys ∧ more.Covers word ∧ ∀ other, set.Covers other → more.Covers other := by
  refine ⟨⟨sound, fun run isRun covered => ?_⟩, (covers word).2 (.inr inside),
    fun other covered => (covers other).2 (.inl covered)⟩
  rcases (covers run).1 covered with old | new
  · exact safe.keeps_runs run isRun old
  · exact certified run isRun new

theorem Safe.recordStem (safe : set.Safe sys) (uncovered : ¬ set.Covers word) {stem : Word}
    (ne : stem ≠ []) (begins : stem <+: word)
    (certified : ∀ run, sys.IsRun run → ¬ stem <+: run) :
    ∃ more, set.recordStem stem = .ok (true, more) ∧ more.Safe sys ∧ more.Covers word ∧
      ∀ other, set.Covers other → more.Covers other := by
  obtain ⟨more, recorded, sound, stems, patterns⟩ :=
    recordStem_of_not_covers safe.trie ne begins uncovered
  refine ⟨more, recorded, safe.grow sound (fun other => ?_) certified begins⟩
  simp only [Covers, stems, patterns, List.mem_append, List.mem_singleton, or_and_right, exists_or,
    exists_eq_left]
  exact or_right_comm

theorem Safe.recordLoop (safe : set.Safe sys) (uncovered : ¬ set.Covers word)
    {pattern : LoopPattern} (holds : pattern.Holds word)
    (certified : ∀ run, sys.IsRun run → ¬ pattern.Holds run) :
    ∃ more, set.recordLoop pattern = (true, more) ∧ more.Safe sys ∧ more.Covers word ∧
      ∀ other, set.Covers other → more.Covers other := by
  refine ⟨_, recordLoop_of_not_covers holds uncovered,
    safe.grow safe.trie (fun other => ?_) certified holds⟩
  simp only [Covers, List.mem_append, List.mem_singleton, or_and_right, exists_or, exists_eq_left,
    or_assoc]

end ExclusionSet

namespace Solver
variable {sys : CounterSystem} {solver : Solver sys} {session next : Session} {word : Word}
  {clock : Clock}

/-- The word is the first candidate of a session, and is not longer than the budget allows. -/
structure Finds (solver : Solver sys) (session : Session) (word : Word) : Prop where
  candidate : sys.Candidate session.modulus session.exclusions word
  within : ∀ limit, solver.budget.maxPathLength = some limit → word.length ≤ limit
  least : ∀ other, sys.Candidate session.modulus session.exclusions other → ¬ Shortlex other word

/-- A number that the next round of a session has to write has too many digits: the modulus, a
number in a question about the candidate, or the modulus that the candidate leads to. -/
inductive Overlong (solver : Solver sys) (session : Session) : Prop where
  | modulus (long : Decimal.isWritable session.modulus = false)
  | question (walk : Walk sys) (finds : solver.Finds session walk.word) (finding : Finding)
      (classified : walk.classify session.modulus solver.loopOracle = .ok finding)
      (pattern : LoopPattern) (asked : pattern ∈ walk.asked finding)
      (long : sys.canAsk pattern = false)
  | raised (walk : Walk sys) (finds : solver.Finds session walk.word)
      (classified : walk.classify session.modulus solver.loopOracle = .ok .inconclusive)
      (long : Decimal.isWritable
        (solver.settings.policy.next session.modulus walk.peak) = false)

/-- The next session has one round more, in which the search ended in this way and its candidate
had this finding. -/
def Logs (session next : Session) (status : SearchStatus) (finding : Option Finding) : Prop :=
  ∃ round, next.rounds = session.rounds ++ [round] ∧ round.outcome.status = status ∧
    round.finding = finding

/-- What a round can do. -/
inductive Progress (solver : Solver sys) (session next : Session) : Prop where
  | refuted (none : ∀ word, ¬ sys.Candidate session.modulus session.exclusions word)
      (verdict : next.verdict = some .unreachable) (done : next.phase = .done)
      (logs : Logs session next .exhausted .none)
  | cut (limit : Int) (known : solver.budget.maxPathLength = some limit)
      (beyond : ∀ word, sys.Candidate session.modulus session.exclusions word →
        limit < (word.length : Int))
      (verdict : next.verdict = some (.unknown .pathLength)) (done : next.phase = .done)
      (logs : Logs session next .truncated none)
  | reached (word : Word) (finds : solver.Finds session word) (run : sys.IsRun word)
      (verdict : next.verdict = some (.reachable word)) (done : next.phase = .done)
      (logs : Logs session next (.found word) (some .genuine))
  | excluded (word : Word) (finds : solver.Finds session word) (safe : next.exclusions.Safe sys)
      (grows : ∀ other, session.exclusions.Covers other → next.exclusions.Covers other)
      (covers : next.exclusions.Covers word) (modulus : next.modulus = session.modulus)
      (verdict : next.verdict = session.verdict) (searching : next.phase = .searching)
      (finding : Finding) (spurious : finding.classification.isSpurious = true)
      (logs : Logs session next (.found word) (some finding))
  | raised (word : Word) (finds : solver.Finds session word)
      (reached : session.modulus ≤ word.length * sys.largestEffect)
      (exclusions : next.exclusions = session.exclusions) (modulus : session.modulus < next.modulus)
      (verdict : next.verdict = session.verdict) (searching : next.phase = .searching)
      (walk : Walk sys) (spells : walk.word = word)
      (raises : next.modulus = solver.settings.policy.next session.modulus walk.peak)
      (logs : Logs session next (.found word) (some .inconclusive))
      (high : session.modulus ≤ walk.peak)

/-! ## The search of a round -/

/-- The search of a round settles which walks are candidates. -/
theorem settles_search (solver : Solver sys) (session : Session) (space : ResidueSpace)
    (safe : session.exclusions.Safe sys) (modulus : space.modulus = session.modulus)
    (dimension : space.dimension = sys.dimension) :
    ∃ outcome, (solver.searchOf session space).run = .ok outcome ∧
      (solver.searchOf session space).Settles
        (sys.Candidate session.modulus session.exclusions) outcome.status := by
  obtain ⟨outcome, ok, settled, -⟩ :=
    (solver.searchOf session space).settles_run dimension safe.trie
  rw [← modulus]
  exact ⟨outcome, ok, settled⟩

/-- The first candidate is found. -/
theorem Finds.search (finds : solver.Finds session word) (safe : session.exclusions.Safe sys)
    (space : ResidueSpace) (modulus : space.modulus = session.modulus)
    (dimension : space.dimension = sys.dimension) :
    ∃ outcome, (solver.searchOf session space).run = .ok outcome ∧
      outcome.status = .found word := by
  obtain ⟨outcome, ran, settled⟩ := settles_search solver session space safe modulus dimension
  refine ⟨outcome, ran, ?_⟩
  cases status : outcome.status with
  | exhausted =>
    rw [status] at settled
    exact absurd finds.candidate (settled word)
  | truncated =>
    rw [status] at settled
    obtain ⟨limit, known, beyond⟩ := settled
    exact absurd (finds.within limit known) (not_le.2 (beyond word finds.candidate))
  | found other =>
    rw [status] at settled
    obtain ⟨candidate, -, least⟩ := settled
    rw [eq_of_not_shortlex (finds.least other candidate) (least word finds.candidate)]

/-! ## The candidate of a round -/

theorem Finds.of_alike {other : Session} (finds : solver.Finds other word)
    (modulus : other.modulus = session.modulus)
    (exclusions : other.exclusions = session.exclusions) : solver.Finds session word := by
  obtain ⟨candidate, within, least⟩ := finds
  rw [modulus, exclusions] at candidate least
  exact ⟨candidate, within, least⟩

/-- A round depends on nothing but the modulus, the exclusions, the verdict and the earlier rounds
of a session. -/
theorem Progress.of_alike {other : Session} (progress : solver.Progress other next)
    (modulus : other.modulus = session.modulus) (exclusions : other.exclusions = session.exclusions)
    (verdict : other.verdict = session.verdict) (rounds : other.rounds = session.rounds) :
    solver.Progress session next := by
  have finds : ∀ {word}, solver.Finds other word → solver.Finds session word :=
    fun found => found.of_alike modulus exclusions
  have logs : ∀ {status finding}, Logs other next status finding →
      Logs session next status finding := by
    rintro status finding ⟨round, logged, same⟩
    exact ⟨round, rounds ▸ logged, same⟩
  cases progress with
  | refuted none answer done logged =>
    rw [modulus, exclusions] at none
    exact .refuted none answer done (logs logged)
  | cut limit known beyond answer done logged =>
    rw [modulus, exclusions] at beyond
    exact .cut limit known beyond answer done (logs logged)
  | reached word found run answer done logged =>
    exact .reached word (finds found) run answer done (logs logged)
  | excluded word found safe grows covers same answer searching finding spurious logged =>
    rw [exclusions] at grows
    exact .excluded word (finds found) safe grows covers (same.trans modulus)
      (answer.trans verdict) searching finding spurious (logs logged)
  | raised word found reached same larger answer searching walk spells raises logged high =>
    rw [modulus] at reached larger raises high
    exact .raised word (finds found) reached (same.trans exclusions) larger (answer.trans verdict)
      searching walk spells raises (logs logged) high

/-- What a round has to write depends on nothing but the modulus and the exclusions. -/
theorem Overlong.of_alike {other : Session} (overlong : solver.Overlong other)
    (modulus : other.modulus = session.modulus)
    (exclusions : other.exclusions = session.exclusions) : solver.Overlong session := by
  cases overlong with
  | modulus long => exact .modulus (modulus ▸ long)
  | question walk finds finding classified pattern asked long =>
    rw [modulus] at classified
    exact .question walk (finds.of_alike modulus exclusions) finding classified pattern asked long
  | raised walk finds classified long =>
    rw [modulus] at classified long
    exact .raised walk (finds.of_alike modulus exclusions) classified long

/-- The first candidate can be followed. -/
theorem Finds.ofWord {walk : Walk sys} (finds : solver.Finds session walk.word) :
    Walk.ofWord sys walk.word = .ok walk := by
  obtain ⟨other, followed, spells⟩ := Walk.ofWord_of_travels finds.candidate.travels
  rwa [Walk.eq_of_word_eq spells] at followed

/-- Something follows from the finding on the first candidate: what it certifies is new. -/
theorem Finds.exists_follows {walk : Walk sys} (finds : solver.Finds session walk.word)
    (safe : session.exclusions.Safe sys) {finding : Finding}
    (certified : finding.Certifies sys session.modulus walk.word)
    (short : finding = .inconclusive →
      Decimal.isWritable (solver.settings.policy.next session.modulus walk.peak) = true) :
    ∃ result, solver.Follows walk (validating session) finding result := by
  cases finding with
  | genuine => exact ⟨_, .genuine⟩
  | inconclusive => exact ⟨_, .inconclusive (short rfl)⟩
  | negativeExcursion stem =>
    obtain ⟨set, recorded, -⟩ :=
      safe.recordStem finds.candidate.uncovered certified.1 certified.2.1 certified.2.2
    exact ⟨_, .negativeExcursion recorded⟩
  | guardViolation stem =>
    obtain ⟨set, recorded, -⟩ :=
      safe.recordStem finds.candidate.uncovered certified.1 certified.2.1 certified.2.2
    exact ⟨_, .guardViolation recorded⟩
  | wrapOnlyLoop pattern =>
    obtain ⟨set, recorded, -⟩ :=
      safe.recordLoop finds.candidate.uncovered certified.1 certified.2
    exact ⟨_, .wrapOnlyLoop recorded⟩

/-- What follows from the finding on the first candidate is progress. -/
theorem Follows.progress {walk : Walk sys} {finding : Finding} {result : Session} {round : Round}
    (follows : solver.Follows walk (validating session) finding result)
    (finds : solver.Finds session walk.word) (safe : session.exclusions.Safe sys)
    (two_le : 2 ≤ session.modulus) (told : finding.Tells walk session.modulus)
    (status : round.outcome.status = .found walk.word) (found : round.finding = some finding) :
    solver.Progress session { result with rounds := session.rounds ++ [round] } ∧
      result.iteration = session.iteration := by
  have certified := walk.certifies_of_tells told finds.candidate.ne_nil finds.candidate.travels
  have logs : ∀ next : Session, next.rounds = session.rounds ++ [round] →
      Logs session next (.found walk.word) (some finding) :=
    fun next rounds => ⟨round, rounds, status, found⟩
  cases follows with
  | genuine => exact ⟨.reached _ finds certified rfl rfl (logs _ rfl), rfl⟩
  | inconclusive =>
    exact ⟨.raised _ finds certified rfl (solver.settings.policy.lt_next two_le _) rfl rfl walk rfl
      rfl (logs _ rfl) told, rfl⟩
  | negativeExcursion recorded | guardViolation recorded =>
    obtain ⟨set, recorded', next, covers, grows⟩ :=
      safe.recordStem finds.candidate.uncovered certified.1 certified.2.1 certified.2.2
    obtain rfl : set = _ := (Prod.mk.inj (Except.ok.inj (recorded'.symm.trans recorded))).2
    exact ⟨.excluded _ finds next grows covers rfl rfl rfl _ rfl (logs _ rfl), rfl⟩
  | wrapOnlyLoop recorded =>
    obtain ⟨set, recorded', next, covers, grows⟩ :=
      safe.recordLoop finds.candidate.uncovered certified.1 certified.2
    obtain rfl : set = _ := (Prod.mk.inj (recorded'.symm.trans recorded)).2
    exact ⟨.excluded _ finds next grows covers rfl rfl rfl _ rfl (logs _ rfl), rfl⟩

/-! ## A whole round -/

theorem make_eq {modulus : Int} (two_le : 2 ≤ modulus) (dimension : Nat) :
    ResidueSpace.make modulus dimension = .ok ⟨modulus, dimension, two_le⟩ := by
  simp [ResidueSpace.make, two_le]

theorem two_le_of_iterate (iterated : solver.iterate clock session = (next, none)) :
    2 ≤ session.modulus := by
  obtain ⟨-, space, -, made, -⟩ := iterate_eq_iff.1 iterated
  by_contra small
  simp [ResidueSpace.make, small] at made

/-- A round without a fault makes progress. -/
theorem progress_of_iterate (safe : session.exclusions.Safe sys) (two_le : 2 ≤ session.modulus)
    (iterated : solver.iterate clock session = (next, none)) :
    solver.Progress session next ∧ next.iteration = session.iteration + 1 := by
  obtain ⟨-, space, outcome, made, ran, continues⟩ := iterate_eq_iff.1 iterated
  obtain rfl := Except.ok.inj (made.symm.trans (make_eq two_le sys.dimension))
  obtain ⟨again, same, settled⟩ := settles_search solver session
    ⟨session.modulus, sys.dimension, two_le⟩ safe rfl rfl
  obtain rfl := Except.ok.inj (ran.symm.trans same)
  cases continues with
  | exhausted status concludes =>
    subst concludes
    rw [status] at settled
    exact ⟨.refuted settled rfl rfl ⟨_, rfl, status, rfl⟩, rfl⟩
  | truncated status concludes =>
    subst concludes
    rw [status] at settled
    obtain ⟨limit, known, beyond⟩ := settled
    exact ⟨.cut limit known beyond rfl rfl ⟨_, rfl, status, rfl⟩, rfl⟩
  | found word status validates =>
    rw [status] at settled
    obtain ⟨candidate, within, least⟩ := settled
    obtain ⟨walk, finding, result, followed, classified, -, follows, rfl⟩ :=
      validate_eq_iff.1 validates
    have finds : solver.Finds session word := ⟨candidate, within, least⟩
    obtain ⟨other, again, rfl⟩ := Walk.ofWord_of_travels candidate.travels
    obtain rfl := Except.ok.inj (again.symm.trans followed)
    obtain ⟨finding', same, told, -⟩ :=
      other.classify_tells solver.loopOracle two_le candidate.divides
    obtain rfl := Except.ok.inj (same.symm.trans classified)
    have finds' : solver.Finds (searched session outcome) other.word := ⟨candidate, within, least⟩
    let round :=
      validatedRound clock session.ticks outcome finding' (searched session outcome) result
    have found : round.outcome.status = .found other.word := status
    obtain ⟨progress, counted⟩ := follows.progress finds' safe two_le told found rfl
    exact ⟨progress.of_alike rfl rfl rfl rfl, counted⟩

/-- A round has no fault if every number that it has to write can be written. -/
theorem exists_iterate (clock : Clock) (safe : session.exclusions.Safe sys)
    (two_le : 2 ≤ session.modulus) (legible : ¬ solver.Overlong session) :
    ∃ next, solver.iterate clock session = (next, none) := by
  have short : Decimal.isWritable session.modulus = true := by
    by_contra long
    exact legible (.modulus (Bool.not_eq_true _ ▸ long))
  obtain ⟨outcome, ran, settled⟩ := settles_search solver session
    ⟨session.modulus, sys.dimension, two_le⟩ safe rfl rfl
  have made := make_eq two_le sys.dimension
  simp only [iterate_eq_iff]
  cases status : outcome.status with
  | exhausted => exact ⟨_, short, _, outcome, made, ran, .exhausted status rfl⟩
  | truncated => exact ⟨_, short, _, outcome, made, ran, .truncated status rfl⟩
  | found word =>
    rw [status] at settled
    obtain ⟨candidate, within, least⟩ := settled
    obtain ⟨walk, followed, rfl⟩ := Walk.ofWord_of_travels candidate.travels
    have finds : solver.Finds session walk.word := ⟨candidate, within, least⟩
    obtain ⟨finding, classified, certified⟩ := walk.classify_certifies solver.loopOracle two_le
      candidate.ne_nil candidate.travels candidate.divides
    have asked : (walk.asked finding).all sys.canAsk = true := by
      refine List.all_eq_true.2 fun pattern mem => ?_
      by_contra long
      exact legible
        (.question walk finds finding classified pattern mem (Bool.not_eq_true _ ▸ long))
    have finds' : solver.Finds (searched session outcome) walk.word := ⟨candidate, within, least⟩
    obtain ⟨result, follows⟩ := finds'.exists_follows safe certified (by
      rintro rfl
      by_contra long
      exact legible (.raised walk finds classified (Bool.not_eq_true _ ▸ long)))
    exact ⟨_, short, _, outcome, made, ran, .found walk.word status (validate_eq_iff.2
      ⟨walk, finding, result, followed, classified, asked, follows, rfl⟩)⟩

/-- The replay of a candidate fails if a number in a question about it, or the modulus that it leads
to, has too many digits. -/
theorem validate_of_overlong {walk : Walk sys} {finding : Finding} (clock : Clock) (begun : Nat)
    (outcome : SearchOutcome) (followed : Walk.ofWord sys walk.word = .ok walk)
    (classified : walk.classify session.modulus solver.loopOracle = .ok finding)
    (long : (walk.asked finding).all sys.canAsk = true → finding = .inconclusive ∧
      Decimal.isWritable (solver.settings.policy.next session.modulus walk.peak) = false) :
    ∃ next, solver.validate clock begun outcome walk.word session = (next, some .unwritable) := by
  simp only [validate, followed, classified]
  cases asked : (walk.asked finding).all sys.canAsk with
  | false => exact ⟨_, rfl⟩
  | true =>
    obtain ⟨rfl, beyond⟩ := long asked
    have fault : (solver.raise walk.peak ({ session with phase := .validating } : Session).tick).2 =
        some .unwritable := by
      rw [raise, if_neg (by simp [Session.tick, beyond])]
    exact ⟨_, Prod.ext rfl fault⟩

/-- A round that has to write a number with too many digits fails. -/
theorem iterate_of_overlong (clock : Clock) (safe : session.exclusions.Safe sys)
    (two_le : 2 ≤ session.modulus) (overlong : solver.Overlong session) :
    ∃ next, solver.iterate clock session = (next, some .unwritable) := by
  have modulus : session.enterIteration.tick.modulus = session.modulus := rfl
  cases short : Decimal.isWritable session.modulus with
  | false =>
    simp only [iterate, modulus, short]
    exact ⟨_, rfl⟩
  | true =>
    have replayed : ∃ (walk : Walk sys) (finding : Finding), solver.Finds session walk.word ∧
        walk.classify session.modulus solver.loopOracle = .ok finding ∧
        ((walk.asked finding).all sys.canAsk = true → finding = .inconclusive ∧
          Decimal.isWritable (solver.settings.policy.next session.modulus walk.peak) = false) := by
      cases overlong with
      | modulus long => simp [short] at long
      | question walk finds finding classified pattern mem long =>
        refine ⟨walk, finding, finds, classified, fun asked => ?_⟩
        simp [List.all_eq_true.1 asked pattern mem] at long
      | raised walk finds classified long =>
        exact ⟨walk, .inconclusive, finds, classified, fun _ => ⟨rfl, long⟩⟩
    obtain ⟨walk, finding, finds, classified, long⟩ := replayed
    obtain ⟨outcome, ran, status⟩ := finds.search safe
      ⟨session.modulus, sys.dimension, two_le⟩ rfl rfl
    rw [iterate_of_found short (make_eq two_le _) ran status]
    exact validate_of_overlong clock _ outcome finds.ofWord classified long

end Solver
end ZeroRun
