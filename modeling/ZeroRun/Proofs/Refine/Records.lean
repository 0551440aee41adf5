import Mathlib
import ZeroRun.Proofs.Refine.Course
import ZeroRun.Proofs.Refine.Step

/-! The records of a query tell its course. They are numbered in order; the modulus stays after a
candidate that was excluded, and grows after one that was not; and the last record tells the
answer, unless there is none or a ceiling was hit. No recording of an exclusion is lost, so the
records also tell how many there are. -/
namespace ZeroRun

namespace IterationRecord

/-- The candidate was excluded by a stem. -/
def BlocksStem (record : IterationRecord) : Prop :=
  record.classification = "NEGATIVE_EXCURSION" ∨ record.classification = "GUARD_VIOLATION"

/-- The candidate was excluded by a loop pattern. -/
def BlocksLoop (record : IterationRecord) : Prop :=
  record.classification = "WRAP_ONLY_LOOP"

/-- There was no candidate. -/
def Empty (record : IterationRecord) : Prop :=
  record.classification = "EXHAUSTED" ∨ record.classification = "TRUNCATED"

/-- No round comes after this one. -/
def Ends (record : IterationRecord) : Prop :=
  record.classification = "GENUINE" ∨ record.Empty

instance : DecidablePred BlocksStem := fun _ => inferInstanceAs (Decidable (_ ∨ _))

instance : DecidablePred BlocksLoop := fun record =>
  inferInstanceAs (Decidable (record.classification = _))

/-- The query can go on at this modulus after the record. -/
structure LeadsTo (record : IterationRecord) (modulus : Int) : Prop where
  kind : record.BlocksStem ∨ record.BlocksLoop ∨ record.classification = "INCONCLUSIVE"
  kept : record.BlocksStem ∨ record.BlocksLoop → modulus = record.modulus
  raised : record.classification = "INCONCLUSIVE" → record.modulus < modulus

end IterationRecord

open IterationRecord (BlocksStem BlocksLoop)

/-- The records so far. -/
def Session.records (session : Session) : List IterationRecord :=
  session.rounds.map Round.record

namespace Solver
variable {sys : CounterSystem} {solver : Solver sys} {session next : Session} {clock : Clock}
  {records : List IterationRecord} {record : IterationRecord}

/-- The records one after another, and within the budget. -/
structure Ledger (solver : Solver sys) (records : List IterationRecord) : Prop where
  numbered : records.map IterationRecord.iteration =
    (List.range records.length).map fun (i : Nat) => (i : Int) + 1
  starts : ∀ first ∈ records.head?, first.modulus = solver.settings.initialModulus
  moves : records.IsChain fun earlier later => earlier.LeadsTo later.modulus
  goes_on : ∀ record ∈ records.dropLast, ¬ record.Ends
  lengths : ∀ record ∈ records, record.candidateLength = none ↔ record.Empty
  iterations : ∀ limit, solver.budget.maxIterations = some limit → (records.length : Int) ≤ limit
  moduli : ∀ limit, solver.budget.maxModulus = some limit →
    ∀ record ∈ records, record.modulus ≤ limit
  pathLengths : ∀ limit, solver.budget.maxPathLength = some limit →
    ∀ record ∈ records, ∀ length, record.candidateLength = some length → length ≤ limit

/-- The numbers that sum up the records. -/
structure Tally (records : List IterationRecord) (iterations peak stems loops : Int) : Prop where
  iterations : iterations = records.length
  no_peak : records = [] → peak = 0
  peak : records ≠ [] → IsGreatest {modulus | ∃ record ∈ records, record.modulus = modulus} peak
  stems : stems = records.countP fun record => record.BlocksStem
  loops : loops = records.countP fun record => record.BlocksLoop

/-- The last record tells the answer. -/
structure Concludes (solver : Solver sys) (records : List IterationRecord) (verdict : Verdict) :
    Prop where
  reachable : (∃ word, verdict = .reachable word) ↔
    ∃ last ∈ records.getLast?, last.classification = "GENUINE"
  unreachable : verdict = .unreachable ↔
    (∃ last ∈ records.getLast?, last.classification = "EXHAUSTED") ∨
      records = [] ∧ solver.Refuted
  pathLength : verdict = .unknown .pathLength ↔
    ∃ last ∈ records.getLast?, last.classification = "TRUNCATED"

/-! ## What a turn records -/

/-- What a round comes to, by its record. -/
inductive Comes (modulus : Int) (exclusions : ExclusionSet) (next : Session)
    (record : IterationRecord) : Prop where
  | exhausted (label : record.classification = "EXHAUSTED")
      (length : record.candidateLength = none) (same : next.exclusions = exclusions)
      (verdict : next.verdict = some .unreachable) (done : next.phase = .done)
  | truncated (label : record.classification = "TRUNCATED")
      (length : record.candidateLength = none) (same : next.exclusions = exclusions)
      (verdict : next.verdict = some (.unknown .pathLength)) (done : next.phase = .done)
  | genuine (label : record.classification = "GENUINE")
      (length : record.candidateLength ≠ none) (same : next.exclusions = exclusions)
      (word : Word) (verdict : next.verdict = some (.reachable word)) (done : next.phase = .done)
  | blocksStem (label : record.BlocksStem) (length : record.candidateLength ≠ none)
      (stems : next.exclusions.stemCount = exclusions.stemCount + 1)
      (loops : next.exclusions.loopCount = exclusions.loopCount)
      (kept : next.modulus = modulus) (searching : next.phase = .searching)
  | blocksLoop (label : record.BlocksLoop) (length : record.candidateLength ≠ none)
      (stems : next.exclusions.stemCount = exclusions.stemCount)
      (loops : next.exclusions.loopCount = exclusions.loopCount + 1)
      (kept : next.modulus = modulus) (searching : next.phase = .searching)
  | inconclusive (label : record.classification = "INCONCLUSIVE")
      (length : record.candidateLength ≠ none) (same : next.exclusions = exclusions)
      (raised : modulus < next.modulus) (searching : next.phase = .searching)

/-- The turn is a round, which writes the record. -/
structure Writes (solver : Solver sys) (session next : Session) (record : IterationRecord) :
    Prop where
  records : next.records = session.records ++ [record]
  iteration : next.iteration = session.iteration + 1
  peak : next.peakModulus = max session.peakModulus session.modulus
  numbered : record.iteration = (session.iteration : Int) + 1
  modulus : record.modulus = session.modulus
  within : ∀ limit, solver.budget.maxPathLength = some limit →
    ∀ length, record.candidateLength = some length → length ≤ limit
  comes : Comes session.modulus session.exclusions next record

/-- The turn gives up at a ceiling. -/
structure Stops (session next : Session) : Prop where
  records : next.records = session.records
  iteration : next.iteration = session.iteration
  peak : next.peakModulus = session.peakModulus
  exclusions : next.exclusions = session.exclusions
  done : next.phase = .done
  verdict : ∃ limit, next.verdict = some (.unknown limit) ∧ limit ≠ .pathLength

theorem Follows.comes {walk : Walk sys} {finding : Finding}
    (follows : solver.Follows walk session finding next) (two_le : 2 ≤ session.modulus)
    (label : record.classification = finding.classification.name)
    (length : record.candidateLength ≠ none) (rounds : List Round) :
    Comes session.modulus session.exclusions { next with rounds } record := by
  cases follows with
  | genuine => exact .genuine label length rfl walk.word rfl rfl
  | negativeExcursion recorded =>
    obtain ⟨stems, loops⟩ := ExclusionSet.stemCount_of_recordStem recorded
    exact .blocksStem (.inl label) length stems loops rfl rfl
  | guardViolation recorded =>
    obtain ⟨stems, loops⟩ := ExclusionSet.stemCount_of_recordStem recorded
    exact .blocksStem (.inr label) length stems loops rfl rfl
  | wrapOnlyLoop recorded =>
    obtain ⟨stems, loops⟩ := ExclusionSet.loopCount_of_recordLoop recorded
    exact .blocksLoop label length stems loops rfl rfl
  | inconclusive =>
    exact .inconclusive label length rfl (solver.settings.policy.lt_next two_le walk.peak) rfl

theorem Follows.counts {walk : Walk sys} {finding : Finding}
    (follows : solver.Follows walk session finding next) :
    next.iteration = session.iteration ∧ next.peakModulus = session.peakModulus := by
  cases follows <;> exact ⟨rfl, rfl⟩

/-- A round without a candidate writes how its search ended. -/
theorem conclude_writes {outcome : SearchOutcome} {begun : Nat} {verdict : Verdict}
    (none : outcome.status.word? = none) {label : String} (named : outcome.status.name = label)
    (comes : ∀ record : IterationRecord, record.classification = label →
      record.candidateLength = .none → Comes session.modulus session.exclusions
        (conclude (roundOf clock begun outcome (searched session outcome)) verdict
          (searched session outcome)) record) :
    ∃ record, solver.Writes session
      (conclude (roundOf clock begun outcome (searched session outcome)) verdict
        (searched session outcome)) record := by
  have length : (roundOf clock begun outcome (searched session outcome)).record.candidateLength =
      .none := by
    simp [Round.record, Round.length?, Round.candidate?, roundOf, none]
  exact ⟨_, List.map_append, rfl, rfl, rfl, rfl, by simp [length], comes _ named length⟩

theorem iterate_writes (ready : Ready sys session)
    (iterated : solver.iterate clock session = (next, none)) :
    ∃ record, solver.Writes session next record := by
  obtain ⟨-, space, outcome, made, ran, continues⟩ := iterate_eq_iff.1 iterated
  cases continues with
  | exhausted status concludes =>
    subst concludes
    apply conclude_writes (by rw [status]; rfl) (congrArg SearchStatus.name status)
    intro record label length
    exact .exhausted label length rfl rfl rfl
  | truncated status concludes =>
    subst concludes
    apply conclude_writes (by rw [status]; rfl) (congrArg SearchStatus.name status)
    intro record label length
    exact .truncated label length rfl rfl rfl
  | found word status validates =>
    obtain ⟨walk, finding, result, -, -, -, follows, rfl⟩ := validate_eq_iff.1 validates
    obtain rfl := Except.ok.inj (made.symm.trans (make_eq ready.two_le sys.dimension))
    obtain ⟨again, same, settled⟩ := settles_search solver session
      ⟨session.modulus, sys.dimension, ready.two_le⟩ ready.safe rfl rfl
    obtain rfl := Except.ok.inj (ran.symm.trans same)
    rw [status] at settled
    obtain ⟨iteration, peak⟩ := follows.counts
    have length : (validatedRound clock session.ticks outcome finding
        (searched session outcome) result).record.candidateLength = some (word.length : Int) := by
      simp [Round.record, Round.length?, Round.candidate?, validatedRound, roundOf, status,
        SearchStatus.word?]
    refine ⟨_, List.map_append, iteration, peak, rfl, rfl, fun limit known size measured => ?_,
      follows.comes ready.two_le rfl (length ▸ Option.some_ne_none _) _⟩
    obtain rfl := Option.some.inj (length.symm.trans measured)
    exact settled.2.1 limit known

/-- The length of the walks is no ceiling that is looked at before a round. -/
theorem Looks.ne_pathLength {limit : Limit} (looks : solver.Looks session (some limit) next) :
    limit ≠ .pathLength := by
  cases looks <;> decide

theorem Looks.not_spent (looks : solver.Looks session none next) :
    ¬ solver.iterationsSpent session = true ∧ ¬ solver.modulusSpent session = true := by
  cases looks with
  | unread patient small | read patient small => exact ⟨patient, small⟩

/-- A turn gives up at a ceiling, or writes a record while all ceilings are out of reach. -/
theorem turn_writes (ready : Ready sys session)
    (turned : solver.turn clock session = (next, none)) :
    Stops session next ∨ (¬ solver.iterationsSpent session = true ∧
      ¬ solver.modulusSpent session = true ∧ ∃ record, solver.Writes session next record) := by
  rcases turn_cases solver clock session with
    ⟨-, limit, after, looks, stops⟩ | ⟨-, after, looks, round⟩
  · left
    rw [stops] at turned
    cases turned
    have other := looks.ne_pathLength
    rcases looks.kept with rfl | rfl <;> exact ⟨rfl, rfl, rfl, rfl, rfl, limit, rfl, other⟩
  · right
    obtain ⟨patient, small⟩ := looks.not_spent
    have iterated : solver.iterate clock after = (next, none) := round.symm.trans turned
    refine ⟨patient, small, ?_⟩
    rcases looks.kept with rfl | rfl
    · exact iterate_writes ready iterated
    · have ready : Ready sys session.tick := ⟨ready.safe, ready.two_le, ready.running⟩
      obtain ⟨record, writes⟩ := iterate_writes ready iterated
      exact ⟨record, { writes with }⟩

/-! ## One record more -/

theorem Tally.append {iterations peak stems loops stems' loops' : Int}
    (tally : Tally records iterations peak stems loops) (natural : 0 ≤ record.modulus)
    (stem : stems' = stems + if record.BlocksStem then 1 else 0)
    (loop : loops' = loops + if record.BlocksLoop then 1 else 0) :
    Tally (records ++ [record]) (iterations + 1) (max peak record.modulus) stems' loops' where
  iterations := by rw [tally.iterations, List.length_append]; rfl
  no_peak empty := by simp at empty
  peak _ := by
    by_cases first : records = []
    · rw [tally.no_peak first, first, max_eq_right natural]
      simp
    · have both : {modulus | ∃ other ∈ records ++ [record], other.modulus = modulus} =
          insert record.modulus {modulus | ∃ other ∈ records, other.modulus = modulus} := by
        ext modulus
        simp [or_and_right, exists_or, or_comm, eq_comm]
      rw [both, max_comm]
      exact (tally.peak first).insert record.modulus
  stems := by
    rw [stem, tally.stems, List.countP_append, List.countP_singleton]
    split <;> simp_all
  loops := by
    rw [loop, tally.loops, List.countP_append, List.countP_singleton]
    split <;> simp_all

theorem Ledger.append (ledger : solver.Ledger records)
    (numbered : record.iteration = (records.length : Int) + 1)
    (starts : records = [] → record.modulus = solver.settings.initialModulus)
    (moves : ∀ last ∈ records.getLast?, last.LeadsTo record.modulus)
    (goes_on : ∀ other ∈ records, ¬ other.Ends)
    (length : record.candidateLength = none ↔ record.Empty)
    (iterations : ∀ limit, solver.budget.maxIterations = some limit →
      (records.length : Int) + 1 ≤ limit)
    (modulus : ∀ limit, solver.budget.maxModulus = some limit → record.modulus ≤ limit)
    (within : ∀ limit, solver.budget.maxPathLength = some limit →
      ∀ length, record.candidateLength = some length → length ≤ limit) :
    solver.Ledger (records ++ [record]) where
  numbered := by
    rw [List.map_append, ledger.numbered, List.length_append, List.length_singleton,
      List.range_succ, List.map_append, List.map_singleton, List.map_singleton, numbered]
  starts first mem := by
    cases records with
    | nil =>
      obtain rfl := Option.some.inj mem
      exact starts rfl
    | cons head rest => exact ledger.starts first mem
  moves := by
    refine ledger.moves.append (.singleton _) fun last final other only => ?_
    obtain rfl := Option.some.inj only
    exact moves last final
  goes_on := by
    rw [List.dropLast_concat]
    exact goes_on
  lengths other mem := by
    rcases List.mem_append.1 mem with old | new
    · exact ledger.lengths other old
    · rwa [List.mem_singleton.1 new]
  iterations limit known := by
    rw [List.length_append]
    exact iterations limit known
  moduli limit known other mem := by
    rcases List.mem_append.1 mem with old | new
    · exact ledger.moduli limit known other old
    · rw [List.mem_singleton.1 new]
      exact modulus limit known
  pathLengths limit known other mem := by
    rcases List.mem_append.1 mem with old | new
    · exact ledger.pathLengths limit known other old
    · rw [List.mem_singleton.1 new]
      exact within limit known

/-! ## What a record tells -/

section Comes
variable {modulus : Int} {exclusions : ExclusionSet}

theorem Comes.length_eq_none_iff (comes : Comes modulus exclusions next record) :
    record.candidateLength = none ↔ record.Empty := by
  cases comes with
  | exhausted label length | truncated label length => simp [IterationRecord.Empty, label, length]
  | genuine label length | inconclusive label length =>
    simp [IterationRecord.Empty, label, length]
  | blocksLoop label length =>
    have label : record.classification = "WRAP_ONLY_LOOP" := label
    simp [IterationRecord.Empty, label, length]
  | blocksStem label length =>
    rcases label with label | label <;> simp [IterationRecord.Empty, label, length]

theorem Comes.stemCount (comes : Comes modulus exclusions next record) :
    next.exclusions.stemCount = exclusions.stemCount + if record.BlocksStem then 1 else 0 := by
  cases comes with
  | exhausted label _ same | truncated label _ same | genuine label _ same
  | inconclusive label _ same => simp [BlocksStem, label, same]
  | blocksStem label _ stems => rw [stems, if_pos label]
  | blocksLoop label _ stems =>
    have label : record.classification = "WRAP_ONLY_LOOP" := label
    simp [BlocksStem, label, stems]

theorem Comes.loopCount (comes : Comes modulus exclusions next record) :
    next.exclusions.loopCount = exclusions.loopCount + if record.BlocksLoop then 1 else 0 := by
  cases comes with
  | exhausted label _ same | truncated label _ same | genuine label _ same
  | inconclusive label _ same => simp [BlocksLoop, label, same]
  | blocksStem label _ _ loops =>
    rcases label with label | label <;> simp [BlocksLoop, label, loops]
  | blocksLoop label _ _ loops => rw [loops, if_pos label]

/-- If the query goes on, then at the modulus that the record tells. -/
theorem Comes.leadsTo (comes : Comes record.modulus exclusions next record)
    (running : next.phase ≠ .done) : ¬ record.Ends ∧ record.LeadsTo next.modulus := by
  cases comes with
  | exhausted _ _ _ _ done | truncated _ _ _ _ done | genuine _ _ _ _ _ done =>
    exact absurd done running
  | inconclusive label _ _ raised =>
    refine ⟨?_, .inr (.inr label), ?_, fun _ => raised⟩ <;>
      simp [IterationRecord.Ends, IterationRecord.Empty, BlocksStem, BlocksLoop, label]
  | blocksStem label _ _ _ kept =>
    refine ⟨?_, .inl label, fun _ => kept, ?_⟩ <;> rcases label with label | label <;>
      simp [IterationRecord.Ends, IterationRecord.Empty, label]
  | blocksLoop label _ _ _ kept =>
    have label : record.classification = "WRAP_ONLY_LOOP" := label
    refine ⟨?_, .inr (.inl label), fun _ => kept, ?_⟩ <;>
      simp [IterationRecord.Ends, IterationRecord.Empty, label]

/-- If the query does not go on, then with the answer that the record tells. -/
theorem Comes.concludes (comes : Comes modulus exclusions next record)
    (done : next.phase = .done) (solver : Solver sys) (records : List IterationRecord) :
    ∃ verdict, next.verdict = some verdict ∧ solver.Concludes (records ++ [record]) verdict := by
  cases comes with
  | exhausted label _ _ verdict | truncated label _ _ verdict | genuine label _ _ word verdict =>
    exact ⟨_, verdict, by simp [label], by simp [label], by simp [label]⟩
  | inconclusive _ _ _ _ searching | blocksStem _ _ _ _ _ searching
  | blocksLoop _ _ _ _ _ searching =>
    rw [done] at searching
    cases searching

end Comes

/-! ## The whole query -/

/-- What holds before a round. -/
structure Pending (solver : Solver sys) (session : Session) : Prop where
  unrefuted : ¬ solver.Refuted
  start : session.records = [] → session.modulus = solver.settings.initialModulus
  onward : ∀ last ∈ session.records.getLast?, last.LeadsTo session.modulus
  goes_on : ∀ record ∈ session.records, ¬ record.Ends

/-- What holds of every session that a query goes through. -/
structure Chronicle (solver : Solver sys) (session : Session) : Prop where
  ledger : solver.Ledger session.records
  tally : Tally session.records session.iteration session.peakModulus
    session.exclusions.stemCount session.exclusions.loopCount
  pending : session.phase ≠ .done → solver.Pending session
  concludes : session.phase = .done →
    ∃ verdict, session.verdict = some verdict ∧ solver.Concludes session.records verdict

theorem Opens.chronicle (opens : solver.Opens session) (valid : solver.budget.Valid) :
    solver.Chronicle session := by
  have empty : session.records = [] := by
    rw [Session.records, opens.rounds]
    rfl
  constructor
  · rw [empty]
    refine ⟨rfl, nofun, .nil, nofun, nofun, fun limit known => ?_, nofun, nofun⟩
    have natural := valid ("max_iterations", solver.budget.maxIterations.map .int)
      (by simp [Budget.limits])
    simpa [known, Budget.isAdmissible, Number.isNegative, Number.exceeds] using natural
  · rw [empty, opens.iteration, opens.exclusions, opens.peak]
    exact ⟨rfl, fun _ => rfl, fun some => absurd rfl some, rfl, rfl⟩
  · intro running
    rcases opens.answer with ⟨-, done, -⟩ | ⟨unrefuted, -⟩
    · exact absurd done running
    · refine ⟨unrefuted, fun _ => opens.modulus, ?_, ?_⟩ <;> simp [empty]
  · intro done
    rcases opens.answer with ⟨refuted, -, verdict⟩ | ⟨-, searching, -⟩
    · exact ⟨_, verdict, by simp [empty], by simp [empty, refuted], by simp [empty]⟩
    · rw [done] at searching
      cases searching

theorem Chronicle.stops (chronicle : solver.Chronicle session) (running : session.phase ≠ .done)
    (stops : Stops session next) : solver.Chronicle next := by
  obtain ⟨unrefuted, -, -, goes_on⟩ := chronicle.pending running
  obtain ⟨limit, verdict, other⟩ := stops.verdict
  refine ⟨?_, ?_, fun running => absurd stops.done running, fun _ => ⟨_, verdict, ?_⟩⟩
  · rw [stops.records]
    exact chronicle.ledger
  · rw [stops.records, stops.iteration, stops.peak, stops.exclusions]
    exact chronicle.tally
  · rw [stops.records]
    -- The query has given up, so the last record tells no answer.
    have last : ∀ record ∈ session.records.getLast?, ¬ record.Ends := fun record final =>
      goes_on record (List.mem_of_getLast? final)
    refine ⟨⟨?_, ?_⟩, ⟨?_, ?_⟩, ⟨?_, ?_⟩⟩
    · rintro ⟨word, found⟩
      cases found
    · rintro ⟨record, final, label⟩
      exact absurd (.inl label) (last record final)
    · intro answer
      cases answer
    · rintro (⟨record, final, label⟩ | ⟨-, refuted⟩)
      · exact absurd (.inr (.inl label)) (last record final)
      · exact absurd refuted unrefuted
    · intro answer
      exact absurd (Verdict.unknown.inj answer) other
    · rintro ⟨record, final, label⟩
      exact absurd (.inr (.inr label)) (last record final)

theorem Chronicle.writes (chronicle : solver.Chronicle session) (running : session.phase ≠ .done)
    (natural : 0 ≤ session.modulus) (patient : ¬ solver.iterationsSpent session = true)
    (small : ¬ solver.modulusSpent session = true)
    (writes : solver.Writes session next record) : solver.Chronicle next := by
  obtain ⟨unrefuted, start, onward, goes_on⟩ := chronicle.pending running
  have counted := chronicle.tally.iterations
  constructor
  · rw [writes.records]
    apply chronicle.ledger.append
    · rw [writes.numbered, counted]
    · rw [writes.modulus]
      exact start
    · rw [writes.modulus]
      exact onward
    · exact goes_on
    · exact writes.comes.length_eq_none_iff
    · intro limit known
      by_contra beyond
      exact patient (iterationsSpent_iff.2 ⟨limit, known, by omega⟩)
    · intro limit known
      rw [writes.modulus]
      by_contra beyond
      exact small (modulusSpent_iff.2 ⟨limit, known, not_le.1 beyond⟩)
    · exact writes.within
  · rw [writes.records, writes.iteration, writes.peak, ← writes.modulus]
    apply chronicle.tally.append
    · rwa [writes.modulus]
    · exact_mod_cast writes.comes.stemCount
    · exact_mod_cast writes.comes.loopCount
  · intro running
    have comes := writes.comes
    rw [← writes.modulus] at comes
    obtain ⟨further, leads⟩ := comes.leadsTo running
    refine ⟨unrefuted, ?_, ?_, ?_⟩
    · simp [writes.records]
    · intro last final
      rw [writes.records, List.getLast?_concat] at final
      obtain rfl := Option.some.inj final
      exact leads
    · intro other mem
      rw [writes.records, List.mem_append, List.mem_singleton] at mem
      rcases mem with old | rfl
      · exact goes_on other old
      · exact further
  · intro done
    rw [writes.records]
    exact writes.comes.concludes done solver session.records

theorem Visits.chronicle (two_le : 2 ≤ solver.settings.initialModulus)
    (valid : solver.budget.Valid) (visits : solver.Visits clock session) :
    solver.Chronicle session := by
  induction visits with
  | opening begun => exact (opens_of_opening begun).chronicle valid
  | turn before running turned ih =>
    have ready := before.ready two_le running
    rcases turn_writes ready turned with stops | ⟨patient, small, record, writes⟩
    · exact ih.stops running stops
    · exact ih.writes running (by have := ready.two_le; omega) patient small writes

/-- A query that has come to a result has come to an answer. -/
theorem run_of_solve {fuel : Nat} {result : QueryResult}
    (solved : solver.solve clock fuel = some (.ok result)) :
    solver.run clock fuel = some (.ok result.session) ∧
      result.session.verdict = some result.verdict := by
  unfold solve at solved
  split at solved
  · cases solved
  · cases solved
  · rename_i session finished
    obtain ⟨verdict, answered, reported⟩ := Option.map_eq_some_iff.1 solved
    unfold QueryResult.ofSession at reported
    dsimp only at reported
    split at reported <;> cases reported
    exact ⟨finished, answered⟩

/-- The records of a query are numbered from one on, start at the first modulus, move on as their
kinds tell and stay within the budget; the summary and the counts are those of the records; and
the last record tells the answer. -/
theorem records_of_solve {fuel : Nat} {result : QueryResult}
    (two_le : 2 ≤ solver.settings.initialModulus) (valid : solver.budget.Valid)
    (solved : solver.solve clock fuel = some (.ok result)) :
    solver.Ledger result.records ∧
      Tally result.records result.summary.totalIterations result.summary.peakModulus
        result.statistics.stemExclusions result.statistics.loopExclusions ∧
      result.statistics.stepCount = result.records.length ∧
      solver.Concludes result.records result.verdict := by
  obtain ⟨finished, answered⟩ := run_of_solve solved
  obtain ⟨visits, done⟩ := visits_of_run finished
  obtain ⟨ledger, tally, -, concludes⟩ := visits.chronicle two_le valid
  obtain ⟨verdict, answer, concluded⟩ := concludes done
  obtain rfl := Option.some.inj (answered.symm.trans answer)
  exact ⟨ledger, tally, tally.iterations, concluded⟩

open CounterSystem (downOrUp) in
/-- Going down is excluded in the first round, and going up is looked at in the second, at the same
modulus. -/
theorem records_of_solve_downOrUp : ∃ result first second,
    (atThree downOrUp).solve (.whole fun _ => 0) 3 = some (.ok result) ∧
      result.records = [first, second] ∧ first.iteration = 1 ∧ second.iteration = 2 ∧
      first.modulus = 3 ∧ second.modulus = 3 := by
  obtain ⟨final, first, second, finished, rounds, -, ⟨finding, found, spurious⟩, -⟩ :=
    rounds_atThree_downOrUp (.whole fun _ => 0)
  have two_le : 2 ≤ (atThree downOrUp).settings.initialModulus := by decide
  have valid : (atThree downOrUp).budget.Valid := by decide
  obtain ⟨visits, done⟩ := visits_of_run finished
  obtain ⟨verdict, answered, -⟩ := (visits.chronicle two_le valid).concludes done
  have solved : (atThree downOrUp).solve (.whole fun _ => 0) 3 =
      some (.ok ⟨verdict, final, .int 0⟩) := by
    simp only [solve, finished, answered, Option.map_some]
    rfl
  obtain ⟨ledger, -⟩ := records_of_solve two_le valid solved
  have records : QueryResult.records ⟨verdict, final, .int 0⟩ = [first.record, second.record] :=
    congrArg (List.map Round.record) rounds
  rw [records] at ledger
  have numbered : [first.record.iteration, second.record.iteration] = [1, 2] := ledger.numbered
  have start : first.record.modulus = 3 := ledger.starts _ rfl
  have label : first.record.classification = finding.classification.name := by
    simp [Round.record, Round.label, found]
  have blocks : first.record.BlocksStem ∨ first.record.BlocksLoop := by
    cases finding with
    | negativeExcursion stem => exact .inl (.inl label)
    | guardViolation stem => exact .inl (.inr label)
    | wrapOnlyLoop pattern => exact .inr label
    | genuine | inconclusive => cases spurious
  have kept : second.record.modulus = first.record.modulus :=
    (List.isChain_pair.1 ledger.moves).kept blocks
  injection numbered with one rest
  injection rest with two
  exact ⟨_, _, _, solved, records, one, two, start, kept.trans start⟩

end Solver
end ZeroRun
