import Mathlib
import ZeroRun.Proofs.Pool
import ZeroRun.Proofs.Refine.Step
import ZeroRun.Proofs.Refine.Termination
import ZeroRun.Report.Result

/-! Wider budgets change no answer. A search that was not cut off goes the same way if longer words
are allowed, and a query that came to an answer never hit a ceiling. So the same query with a wider
budget goes through the same sessions, turn by turn, whatever the clock shows. -/
namespace ZeroRun

/-- The first limit is no stricter than the second: it does not bind, or both are set and it is no
lower. -/
def Relaxes (wide narrow : Option Int) : Prop :=
  ∀ limit, wide = some limit → ∃ lower, narrow = some lower ∧ lower ≤ limit

/-- The budget limits nothing but iterations, the modulus and lengths, and these no stricter than
the other. -/
structure Budget.Widens (wide narrow : Budget) : Prop where
  iterations : Relaxes wide.maxIterations narrow.maxIterations
  modulus : Relaxes wide.maxModulus narrow.maxModulus
  pathLength : Relaxes wide.maxPathLength narrow.maxPathLength
  time : wide.maxTime = none
  no_time : narrow.maxTime = none

/-! ## One search under two limits -/

namespace CandidateSearch
variable {sys : CounterSystem} {search : CandidateSearch sys} {limit : Option Int}

/-- The same search with another limit. -/
def withLimit (search : CandidateSearch sys) (limit : Option Int) : CandidateSearch sys :=
  { search with maxLength := limit }

theorem scan_withLimit (visited : Visited) (nodes kept : List Node) :
    (search.withLimit limit).scan visited nodes kept = search.scan visited nodes kept := by
  induction nodes generalizing visited kept with
  | nil => rfl
  | cons node nodes ih =>
    rw [scan, scan, ih, ih]
    rfl

/-- Nodes that have all been visited make no layer. -/
theorem scan_of_visited {visited : Visited} {nodes kept : List Node}
    (old : ∀ node ∈ nodes, visited.contains node.1 = true) :
    search.scan visited nodes kept = .layer kept.reverse visited := by
  induction nodes with
  | nil => rfl
  | cons node nodes ih =>
    rw [scan, if_pos (old node List.mem_cons_self)]
    exact ih fun other mem => old other (List.mem_cons_of_mem _ mem)

theorem explore_nil (layers : Nat) (visited : Visited) (n : Nat) :
    search.explore layers visited [] n = ⟨.exhausted, visited.size, n⟩ := by
  cases layers <;> rfl

theorem atLimit_withLimit (wider : Relaxes limit search.maxLength) {n : Nat}
    (below : search.atLimit n = false) : (search.withLimit limit).atLimit n = false := by
  by_contra full
  rw [Bool.not_eq_false] at full
  obtain ⟨high, known, reached⟩ := atLimit_iff.1 full
  obtain ⟨low, set, le⟩ := wider high known
  have full := atLimit_iff.2 ⟨low, set, le.trans reached⟩
  rw [below] at full
  cases full

/-- A search that was not cut off ends in the same way, with as many states, if it may go on. -/
theorem explore_withLimit (wider : Relaxes limit search.maxLength) {layers n : Nat}
    {visited : Visited} {frontier : List Node}
    (uncut : (search.explore layers visited frontier n).status ≠ .truncated) :
    ((search.withLimit limit).explore layers visited frontier n).status =
        (search.explore layers visited frontier n).status ∧
      ((search.withLimit limit).explore layers visited frontier n).visited =
        (search.explore layers visited frontier n).visited := by
  induction layers generalizing visited frontier n with
  | zero => exact ⟨rfl, rfl⟩
  | succ layers ih =>
    by_cases empty : frontier = []
    · rw [empty, explore_nil, explore_nil]
      exact ⟨rfl, rfl⟩
    have some : ¬ frontier.isEmpty = true := by simpa using empty
    have expanded : ((search.withLimit limit).expandLayer n frontier).flatten =
        (search.expandLayer n frontier).flatten := rfl
    rw [explore, if_neg some] at uncut ⊢
    rw [explore, if_neg some, expanded]
    cases full : search.atLimit n with
    | false =>
      simp only [full, atLimit_withLimit wider full, scan_withLimit, Bool.false_eq_true,
        if_false] at uncut ⊢
      split at uncut
      · exact ⟨rfl, rfl⟩
      · exact ih uncut
    | true =>
      simp only [full, if_true] at uncut ⊢
      by_cases fresh : ((search.expandLayer n frontier).flatten.any fun node =>
          !visited.contains node.1) = true
      · rw [if_pos fresh] at uncut
        exact absurd rfl uncut
      · -- Without a limit there is one more layer, in which nothing new comes up.
        have old : ∀ node ∈ (search.expandLayer n frontier).flatten,
            visited.contains node.1 = true := by
          intro node mem
          by_contra new
          exact fresh (List.any_eq_true.2 ⟨node, mem, by simpa using new⟩)
        rw [if_neg fresh, scan_of_visited old]
        cases (search.withLimit limit).atLimit n with
        | true => exact ⟨rfl, rfl⟩
        | false =>
          simp only [Bool.false_eq_true, if_false, List.reverse_nil, explore_nil, and_self]

theorem run_withLimit (wider : Relaxes limit search.maxLength) {outcome : SearchOutcome}
    (ran : search.run = .ok outcome) (uncut : outcome.status ≠ .truncated) :
    ∃ other, (search.withLimit limit).run = .ok other ∧ other.status = outcome.status ∧
      other.visited = outcome.visited := by
  unfold run at ran ⊢
  have language : (search.withLimit limit).language = search.language := rfl
  rw [language]
  cases begun : search.language.grammar.initialState with
  | error e => simp [begun, bind, Except.bind] at ran
  | ok derivation? =>
    rw [begun] at ran
    cases derivation? with
    | none =>
      cases ran
      exact ⟨_, rfl, rfl, rfl⟩
    | some derivation =>
      cases ran
      obtain ⟨status, visited⟩ := explore_withLimit wider uncut
      exact ⟨_, rfl, status, visited⟩

end CandidateSearch

/-! ## Two sessions -/

/-- The record without the time that the iteration took. -/
def IterationRecord.timeless (record : IterationRecord) : IterationRecord :=
  { record with elapsed := .int 0 }

/-- The round without what the clock and the limit on lengths have a say in. -/
def Round.bare (round : Round) : Round :=
  { round with elapsed := .int 0, outcome := { round.outcome with layers := 0 } }

/-- The two sessions differ at most in their clocks, in how far exhausted searches went and in the
details of the integer check. -/
structure Session.Alike (a b : Session) : Prop where
  modulus : a.modulus = b.modulus
  iteration : a.iteration = b.iteration
  phase : a.phase = b.phase
  verdict : a.verdict = b.verdict
  exclusions : a.exclusions = b.exclusions
  peakModulus : a.peakModulus = b.peakModulus
  visited : a.visited = b.visited
  rounds : a.rounds.map Round.bare = b.rounds.map Round.bare

namespace Session.Alike
variable {a b : Session} (alike : a.Alike b)
include alike

theorem enterIteration : a.enterIteration.tick.Alike b.enterIteration.tick where
  __ := alike
  iteration := congrArg (· + 1) alike.iteration
  peakModulus := congrArg₂ max alike.peakModulus alike.modulus

/-- Rounds that are alike can be added. -/
theorem log {r s : Round} (same : r.bare = s.bare) :
    ({ a with rounds := a.rounds ++ [r] } : Session).Alike
      { b with rounds := b.rounds ++ [s] } where
  __ := alike
  rounds := by simp [alike.rounds, same]

/-- The records are the same, their times apart. -/
theorem records : a.rounds.map (IterationRecord.timeless ∘ Round.record) =
    b.rounds.map (IterationRecord.timeless ∘ Round.record) := by
  have told := congrArg (List.map (IterationRecord.timeless ∘ Round.record)) alike.rounds
  rw [List.map_map, List.map_map] at told
  exact told

end Session.Alike

/-! ## Two queries -/

instance (sys : CounterSystem) : Subsingleton (WalkLanguage sys) where
  allEq := by
    rintro ⟨first, built⟩ ⟨second, again⟩
    obtain rfl := Except.ok.inj (built.symm.trans again)
    rfl

namespace Solver
variable {sys : CounterSystem} {solver other : Solver sys} {session session' next final : Session}
  {clock clock' : Clock} {begun begun' : Nat} {outcome outcome' : SearchOutcome}

/-- The two queries have the same settings, their budgets and workers apart, and the integer check
has the same answer in both, or the same fault. -/
structure Resembles (other solver : Solver sys) : Prop where
  modulus : other.settings.initialModulus = solver.settings.initialModulus
  policy : other.settings.policy = solver.settings.policy
  precheck : other.settings.precheck = solver.settings.precheck
  loopOracle : other.loopOracle = solver.loopOracle
  checked : solver.settings.precheck.enabled = true →
    other.integerCheck.map IntegerReach.Result.refutes =
      solver.integerCheck.map IntegerReach.Result.refutes

theorem Resembles.opening (resembles : other.Resembles solver)
    (begun : solver.opening = .ok session) :
    ∃ session', other.opening = .ok session' ∧ session.Alike session' := by
  unfold Solver.opening at begun ⊢
  rw [resembles.precheck, resembles.modulus]
  by_cases writable : sys.isWritable = true
  · simp only [writable, Bool.not_true, Bool.false_eq_true, if_false] at begun ⊢
    by_cases enabled : solver.settings.precheck.enabled = true
    · have same := resembles.checked enabled
      simp only [enabled, if_true] at begun ⊢
      cases checked : solver.integerCheck with
      | error e => simp [checked] at begun
      | ok result =>
        rw [checked] at same begun
        cases checked' : other.integerCheck with
        | error e => simp [checked', Except.map] at same
        | ok result' =>
          have same : result'.refutes = result.refutes := by
            simpa [checked', Except.map] using same
          cases begun
          refine ⟨_, rfl, ?_⟩
          rw [same]
          split <;> exact ⟨rfl, rfl, rfl, rfl, rfl, rfl, rfl, rfl⟩
    · simp only [enabled] at begun ⊢
      cases begun
      exact ⟨_, rfl, rfl, rfl, rfl, rfl, rfl, rfl, rfl, rfl⟩
  · simp [writable] at begun

/-! ## One turn of both -/

theorem bare_roundOf (alike : session.Alike session') (status : outcome'.status = outcome.status)
    (visited : outcome'.visited = outcome.visited) :
    (roundOf clock begun outcome session).bare =
      (roundOf clock' begun' outcome' session').bare := by
  simp only [roundOf, Round.bare, alike.iteration, alike.modulus, alike.exclusions, status, visited]

theorem conclude_alike (alike : session.Alike session') {r s : Round} (same : r.bare = s.bare)
    (verdict : Verdict) : (conclude r verdict session).Alike (conclude s verdict session') where
  __ := alike.log same
  phase := rfl
  verdict := rfl

/-- What follows from a finding depends on nothing that alike sessions differ in. -/
theorem Follows.alike {walk : Walk sys} {finding : Finding}
    (follows : solver.Follows walk session finding next) (resembles : other.Resembles solver)
    (alike : session.Alike session') :
    ∃ next', other.Follows walk session' finding next' ∧ next.Alike next' := by
  cases follows with
  | genuine => exact ⟨_, .genuine, { alike with phase := rfl, verdict := rfl }⟩
  | negativeExcursion recorded =>
    rw [alike.exclusions] at recorded
    exact ⟨_, .negativeExcursion recorded, { alike with phase := rfl, exclusions := rfl }⟩
  | guardViolation recorded =>
    rw [alike.exclusions] at recorded
    exact ⟨_, .guardViolation recorded, { alike with phase := rfl, exclusions := rfl }⟩
  | wrapOnlyLoop recorded =>
    rw [alike.exclusions] at recorded
    exact ⟨_, .wrapOnlyLoop recorded, { alike with phase := rfl, exclusions := rfl }⟩
  | inconclusive short =>
    rw [alike.modulus, ← resembles.policy] at short
    refine ⟨_, .inconclusive short, { alike with phase := rfl, modulus := ?_ }⟩
    simp only [resembles.policy, alike.modulus]

/-- The replay of a candidate goes the same way in alike sessions. -/
theorem validate_alike (resembles : other.Resembles solver) (alike : session.Alike session')
    (status : outcome'.status = outcome.status) (visited : outcome'.visited = outcome.visited)
    {word : Word} (validated : solver.validate clock begun outcome word session = (next, none)) :
    ∃ next', other.validate clock' begun' outcome' word session' = (next', none) ∧
      next.Alike next' := by
  obtain ⟨walk, finding, result, followed, classified, asked, follows, rfl⟩ :=
    validate_eq_iff.1 validated
  have validating : (validating session).Alike (validating session') := { alike with phase := rfl }
  obtain ⟨result', follows', onward⟩ := follows.alike resembles validating
  rw [alike.modulus, ← resembles.loopOracle] at classified
  refine ⟨_, validate_eq_iff.2
    ⟨walk, finding, result', followed, classified, asked, follows', rfl⟩, ?_⟩
  refine { onward with rounds := ?_ }
  simp [alike.rounds, Round.bare, validatedRound, roundOf, alike.iteration, alike.modulus,
    alike.exclusions, onward.phase, onward.modulus, onward.exclusions, status, visited]

/-- A round that is not cut off goes the same way if longer words are allowed. -/
theorem iterate_alike (resembles : other.Resembles solver)
    (wider : Relaxes other.budget.maxPathLength solver.budget.maxPathLength)
    (alike : session.Alike session') (iterated : solver.iterate clock session = (next, none))
    (uncut : next.verdict = some (.unknown .pathLength) → next.phase ≠ .done) :
    ∃ next', other.iterate clock' session' = (next', none) ∧ next.Alike next' := by
  obtain ⟨short, space, outcome, made, ran, continues⟩ := iterate_eq_iff.1 iterated
  have cut : outcome.status ≠ .truncated := by
    intro truncated
    cases continues with
    | exhausted status | found _ status => simp [truncated] at status
    | truncated _ concludes =>
      rw [concludes] at uncut
      exact uncut rfl rfl
  -- The two searches differ in nothing but the limit and the workers.
  have search : other.searchOf session' space =
      { (solver.searchOf session space).withLimit other.budget.maxPathLength with
        workers := other.settings.workers, pool := other.pool } := by
    simp only [searchOf, CandidateSearch.withLimit, alike.exclusions,
      Subsingleton.elim other.language solver.language]
  obtain ⟨outcome', ran', status, visited⟩ := CandidateSearch.run_withLimit wider ran cut
  rw [← CandidateSearch.run_of_workers _ other.settings.workers other.pool, ← search] at ran'
  rw [alike.modulus] at made short
  have counted : (searched session outcome).Alike (searched session' outcome') :=
    { alike.enterIteration with visited := congrArg₂ (· + ·) alike.visited visited.symm }
  simp only [iterate_eq_iff]
  cases continues with
  | exhausted exhausted concludes =>
    subst concludes
    refine ⟨_, ⟨short, space, outcome', made, ran', .exhausted (status.trans exhausted) rfl⟩, ?_⟩
    exact conclude_alike counted (bare_roundOf counted status visited) _
  | truncated truncated => exact absurd truncated cut
  | found word found validates =>
    obtain ⟨next', validates', onward⟩ :=
      validate_alike resembles counted status visited validates
    exact ⟨next', ⟨short, space, outcome', made, ran',
      .found word (status.trans found) validates'⟩, onward⟩

/-- A ceiling that is not hit is not hit with a wider budget either, and without a limit on time the
clock is not read. -/
theorem Looks.alike (looks : solver.Looks session none next)
    (widens : other.budget.Widens solver.budget) (alike : session.Alike session') :
    next = session ∧
      ∀ limit after, other.Looks session' limit after → limit = none ∧ after = session' := by
  have unread : next = session ∧ ¬ solver.iterationsSpent session = true ∧
      ¬ solver.modulusSpent session = true := by
    cases looks with
    | unread patient small => exact ⟨rfl, patient, small⟩
    | read _ _ timed => exact absurd widens.no_time timed
  obtain ⟨rfl, patient, small⟩ := unread
  refine ⟨rfl, fun limit after looks' => ?_⟩
  cases looks' with
  | iterations spent =>
    obtain ⟨high, known, reached⟩ := iterationsSpent_iff.1 spent
    obtain ⟨low, set, le⟩ := widens.iterations high known
    rw [← alike.iteration] at reached
    exact absurd (iterationsSpent_iff.2 ⟨low, set, le.trans reached⟩) patient
  | modulus spent =>
    obtain ⟨high, known, passed⟩ := modulusSpent_iff.1 spent
    obtain ⟨low, set, le⟩ := widens.modulus high known
    rw [← alike.modulus] at passed
    exact absurd (modulusSpent_iff.2 ⟨low, set, le.trans_lt passed⟩) small
  | time timed => exact absurd widens.time timed
  | unread => exact ⟨rfl, rfl⟩
  | read _ _ timed => exact absurd widens.time timed

/-- The session has not been given up at a ceiling. -/
def Unhindered (session : Session) : Prop :=
  session.phase = .done → ∀ limit, session.verdict ≠ some (.unknown limit)

/-- A turn that does not give up is the same turn with a wider budget. -/
theorem turn_alike (clock' : Clock) (resembles : other.Resembles solver)
    (widens : other.budget.Widens solver.budget) (alike : session.Alike session')
    (turned : solver.turn clock session = (next, none)) (unhindered : Unhindered next) :
    ∃ next', other.turn clock' session' = (next', none) ∧ next.Alike next' := by
  rcases turn_cases solver clock session with
    ⟨-, limit, after, -, stops⟩ | ⟨-, after, looks, round⟩
  · rw [stops] at turned
    cases turned
    exact absurd rfl (unhindered rfl limit)
  obtain ⟨rfl, free⟩ := looks.alike widens alike
  rw [round] at turned
  rcases turn_cases other clock' session' with
    ⟨-, limit, after', looks', -⟩ | ⟨-, after', looks', round'⟩
  · cases (free _ _ looks').1
  obtain ⟨-, rfl⟩ := free _ _ looks'
  rw [round']
  exact iterate_alike resembles widens.pathLength alike turned
    fun cut done => unhindered done _ cut

/-! ## Whole queries -/

/-- From alike sessions on, a query that comes to an answer comes to the same one with a wider
budget. -/
theorem loop_alike (clock' : Clock) (resembles : other.Resembles solver)
    (widens : other.budget.Widens solver.budget) (alike : session.Alike session') {fuel : Nat}
    (finished : solver.loop clock fuel session = some (.ok final)) (unhindered : Unhindered final) :
    ∃ final', other.loop clock' fuel session' = some (.ok final') ∧ final.Alike final' := by
  induction fuel generalizing session session' with
  | zero => cases finished
  | succ fuel ih =>
    by_cases done : session.phase = .done
    · rw [loop_of_done _ _ _ done] at finished
      cases finished
      exact ⟨session', loop_of_done _ _ _ (alike.phase ▸ done), alike⟩
    rcases loop_cases done finished with ⟨_, fault, -, failed⟩ | ⟨next, turned, finished⟩
    · cases failed
    -- A session that is done is the answer, so it has not been given up either.
    have onward : Unhindered next := by
      intro done
      cases fuel with
      | zero => cases finished
      | succ fuel =>
        rw [loop_of_done _ _ _ done] at finished
        cases finished
        exact unhindered done
    obtain ⟨next', turned', alike'⟩ := turn_alike clock' resembles widens alike turned onward
    rw [loop_of_turn (alike.phase ▸ done) turned']
    exact ih alike' finished

/-- If a query comes to an answer, then the same query with a wider budget comes to the same answer
on the same way: with the same records, exclusions, visited states and peak of the modulus. -/
theorem run_of_wider_budget (resembles : other.Resembles solver)
    (widens : other.budget.Widens solver.budget) {fuel : Nat} (clock' : Clock)
    (finished : solver.run clock fuel = some (.ok final))
    (answered :
      final.verdict = some .unreachable ∨ ∃ word, final.verdict = some (.reachable word)) :
    ∃ final', other.run clock' fuel = some (.ok final') ∧ final'.verdict = final.verdict ∧
      final'.rounds.map (IterationRecord.timeless ∘ Round.record) =
        final.rounds.map (IterationRecord.timeless ∘ Round.record) ∧
      final'.exclusions.stemCount = final.exclusions.stemCount ∧
      final'.exclusions.loopCount = final.exclusions.loopCount ∧
      final'.visited = final.visited ∧ final'.peakModulus = final.peakModulus := by
  have unhindered : Unhindered final := by
    intro _ limit unknown
    rcases answered with none | ⟨word, found⟩
    · rw [none] at unknown
      cases unknown
    · rw [found] at unknown
      cases unknown
  obtain ⟨session, begun, finished⟩ := loop_of_run finished
  obtain ⟨session', begun', start⟩ := resembles.opening begun
  rw [run_of_opening begun']
  obtain ⟨final', finished', alike⟩ :=
    loop_alike clock' resembles widens start finished unhindered
  exact ⟨final', finished', alike.verdict.symm, alike.records.symm,
    congrArg ExclusionSet.stemCount alike.exclusions.symm,
    congrArg ExclusionSet.loopCount alike.exclusions.symm, alike.visited.symm,
    alike.peakModulus.symm⟩

open CounterSystem (twoSteps isRun_twoSteps_iff isWritable_twoSteps) in
/-- One step up and one step down: three rounds over two steps are enough for the answer, which more
rounds over walks of any length do not change. -/
theorem run_of_wider_budget_twoSteps :
    let narrow : Solver (twoSteps 1 (-1)) :=
      { budget := { maxIterations := some 3, maxPathLength := some 2 } }
    let wide : Solver (twoSteps 1 (-1)) := { budget := { maxIterations := some 7 } }
    ∃ final final' word, narrow.run (.whole fun _ => 0) 4 = some (.ok final) ∧
      final.verdict = some (.reachable word) ∧
      wide.run (.whole fun _ => 1) 4 = some (.ok final') ∧
      final'.verdict = some (.reachable word) ∧ final'.visited = final.visited := by
  intro narrow wide
  have run : (twoSteps 1 (-1)).IsRun [0, 1] := isRun_twoSteps_iff.2 (by decide)
  have allows : narrow.budget.Allows ((twoSteps 1 (-1)).roundBound 2) := by
    refine ⟨rfl, rfl, fun limit known => ?_⟩
    obtain rfl := Option.some.inj known
    rw [roundBound_twoSteps]
    decide
  have widens : wide.budget.Widens narrow.budget := by
    refine ⟨fun limit known => ⟨3, rfl, ?_⟩, fun limit known => ?_, fun limit known => ?_, rfl, rfl⟩
    · obtain rfl := Option.some.inj known
      decide
    · cases known
    · cases known
  have resembles : wide.Resembles narrow := ⟨rfl, rfl, rfl, rfl, fun _ => rfl⟩
  have bounded : narrow.budget.maxPathLength = some ((2 : Nat) : Int) := rfl
  have begins : ∃ session, narrow.opening = .ok session :=
    exists_opening isWritable_twoSteps nofun
  have legible : narrow.Legible (.whole fun _ => 0) :=
    legible_of_short (by decide) begins
      (fun session _ word finds => mod_cast finds.within 2 bounded) (by decide +kernel)
      (by decide +kernel) _
  obtain ⟨final, finished, -, decided⟩ :=
    (run_decides (.whole fun _ => 0) (by decide) bounded allows).resolve_right
      fun failed => failed.1 legible
  rw [roundBound_twoSteps] at finished
  have found : ∃ word, final.verdict = some (.reachable word) := by
    generalize final.verdict = verdict at decided
    cases decided with
    | reachable word => exact ⟨word, rfl⟩
    | unreachable none => exact absurd run (none _)
    | pathLength beyond => exact absurd (beyond _ run) (lt_irrefl 2)
  obtain ⟨word, answer⟩ := found
  obtain ⟨final', finished', verdict, -, -, -, visited, -⟩ :=
    run_of_wider_budget resembles widens (.whole fun _ => 1) finished (.inr ⟨word, answer⟩)
  exact ⟨final, final', word, finished, answer, finished', verdict.trans answer, visited⟩

end Solver
end ZeroRun
