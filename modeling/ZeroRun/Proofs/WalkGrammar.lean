import ZeroRun.WalkGrammar

/-! The grammar of the walks as it comes out. Adding nonterminals and productions one after another
gives each state the productions of its own transitions, in the order of their indices. No
production has two nonterminals, so no length of a shortest word is too large, and the grammar can
be trimmed. -/
namespace ZeroRun

namespace Grammar
variable {τ : Type}

/-- A right-hand side with at most one nonterminal and at most one terminal besides it. -/
def Linear (body : Body τ) : Prop :=
  body.terminals.length ≤ 1 ∧ body.nonterminals.length ≤ 1

theorem plus_of_le_one {n : Nat} (small : n ≤ 1) (l : Length) :
    Length.plus (some n) l = .ok (l.map (n + ·)) := by
  cases l with
  | some m => rfl
  | none =>
    have float : Length.hasFloat (some n) = true := by
      rcases Nat.le_one_iff_eq_zero_or_eq_one.1 small with rfl | rfl <;> decide
    exact if_pos (by rw [float]; rfl)

theorem measure_of_linear (table : Yields) {body : Body τ} (linear : Linear body) :
    ∃ length, measure table body = .ok length := by
  obtain ⟨terminals, nonterminals⟩ := linear
  have total : ∃ inner, Length.total (body.nonterminals.map table.of) = .ok inner := by
    match body.nonterminals, nonterminals with
    | [], _ => exact ⟨_, rfl⟩
    | [name], _ =>
      refine ⟨(table.of name).map (0 + ·), ?_⟩
      simp [Length.total, plus_of_le_one, bind, Except.bind, pure, Except.pure]
  obtain ⟨inner, summed⟩ := total
  refine ⟨inner.map (body.terminals.length + ·), ?_⟩
  simp only [measure, summed, bind, Except.bind]
  exact plus_of_le_one terminals inner

theorem sweep_of_linear {productions : List (Production τ)} (table : Yields)
    (linear : ∀ p ∈ productions, Linear p.body) : ∃ next, sweep productions table = .ok next := by
  induction productions generalizing table with
  | nil => exact ⟨table, rfl⟩
  | cons p ps ih =>
    obtain ⟨length, measured⟩ := measure_of_linear table (linear p List.mem_cons_self)
    have first : ∃ between, shorten table p = .ok between := by
      simp only [shorten, measured]
      exact ⟨_, rfl⟩
    obtain ⟨between, first⟩ := first
    obtain ⟨next, rest⟩ := ih between fun q mem => linear q (List.mem_cons_of_mem _ mem)
    exact ⟨next, sweep_cons_eq_ok.2 ⟨between, first, rest⟩⟩

theorem settle_of_linear {productions : List (Production τ)} (table : Yields)
    (linear : ∀ p ∈ productions, Linear p.body) : ∃ next, settle productions table = .ok next := by
  fun_induction settle productions table with
  | case1 table e failed =>
    obtain ⟨next, swept⟩ := sweep_of_linear table linear
    rw [swept] at failed
    cases failed
  | case2 table swept => exact ⟨table, rfl⟩
  | case3 table next swept changed ih => exact ih

/-- Without two nonterminals in a production no sum of lengths is too large. -/
theorem shortestLengths_of_linear {g : Grammar τ} (linear : ∀ p ∈ g.allProductions, Linear p.body) :
    ∃ table, g.shortestLengths = .ok table :=
  settle_of_linear _ linear

end Grammar

theorem walksFrom_eq_iff {a b : Ident} : walksFrom a = walksFrom b ↔ a = b := by
  simp [walksFrom]

namespace CounterSystem
variable {sys : CounterSystem}

/-- The right-hand sides for a state: nothing more to do in the final one, and a production for
each of the given transitions that leaves the state. -/
def walkBodies (sys : CounterSystem) (given : List (Nat × Transition)) (state : Ident) :
    List (Body Int) :=
  (if state = sys.final then [.epsilon] else [])
    ++ (given.filter fun p => p.2.source = state).map fun p => (walkEdge p).body

/-- The grammar when the productions of the given transitions have been added. -/
def walksAlong (sys : CounterSystem) (given : List (Nat × Transition)) : Grammar Int where
  name := .text "reachability"
  rules := (Ident.inOrder sys.states).map fun state => (walksFrom state, sys.walkBodies given state)
  terminals := given.foldl (fun known p => Grammar.addNew known (p.1 : Int)) []

/-- The grammar of all walks. -/
def walks (sys : CounterSystem) : Grammar Int :=
  { sys.walksAlong sys.liveTransitions with start := some (walksFrom sys.initial) }

theorem mem_inOrder {state : Ident} {states : List Ident} :
    state ∈ Ident.inOrder states ↔ state ∈ states :=
  List.mem_mergeSort

theorem nonterminals_walksAlong (given : List (Nat × Transition)) :
    (sys.walksAlong given).nonterminals = (Ident.inOrder sys.states).map walksFrom := by
  simp [Grammar.nonterminals, walksAlong, Function.comp_def]

theorem walksFrom_mem {given : List (Nat × Transition)} {state : Ident} (mem : state ∈ sys.states) :
    walksFrom state ∈ (sys.walksAlong given).nonterminals := by
  rw [nonterminals_walksAlong]
  exact List.mem_map_of_mem (mem_inOrder.2 mem)

/-- Adding names that are new and differ gives each of them no production. -/
theorem foldl_addNonterminal (g : Grammar Int) (states : List Ident) (nodup : states.Nodup)
    (new : ∀ state ∈ states, walksFrom state ∉ g.nonterminals) :
    states.foldl (fun g state => g.addNonterminal (walksFrom state)) g =
      { g with rules := g.rules ++ states.map fun state => (walksFrom state, []) } := by
  induction states generalizing g with
  | nil => simp
  | cons state states ih =>
    obtain ⟨other, rest⟩ := List.nodup_cons.1 nodup
    have added : g.addNonterminal (walksFrom state) =
        { g with rules := g.rules ++ [(walksFrom state, [])] } := by
      rw [Grammar.addNonterminal, if_neg (new state List.mem_cons_self)]
    rw [List.foldl_cons, added, ih _ rest]
    · simp
    · intro later mem
      have differs : walksFrom later ≠ walksFrom state := by
        rw [Ne, walksFrom_eq_iff]
        rintro rfl
        exact other mem
      simpa [Grammar.nonterminals, differs] using new later (List.mem_cons_of_mem _ mem)

/-- A production of known names is added to the right-hand sides of its own name. -/
theorem addProduction_of_known {g : Grammar Int} {p : Production Int}
    (known : ∀ name ∈ p.lhs :: p.body.nonterminals, name ∈ g.nonterminals) :
    g.addProduction p = .ok { g with
      rules := g.rules.map fun rule =>
        (rule.1, if rule.1 = p.lhs then rule.2 ++ [p.body] else rule.2)
      terminals := p.body.terminals.foldl Grammar.addNew g.terminals } := by
  have all : (p.lhs :: p.body.nonterminals).find? (· ∉ g.nonterminals) = none := by
    rw [List.find?_eq_none]
    intro name mem
    simpa using known name mem
  rw [Grammar.addProduction, all]

theorem addProduction_epsilon (sys : CounterSystem) :
    sys.walkNames.addProduction ⟨walksFrom sys.final, .epsilon⟩ = .ok (sys.walksAlong []) := by
  have nodup : (Ident.inOrder sys.states).Nodup :=
    (List.mergeSort_perm _ _).nodup_iff.2 sys.nodup_states
  rw [walkNames, foldl_addNonterminal _ _ nodup (by simp [Grammar.nonterminals]),
    addProduction_of_known]
  · simp only [walksAlong, Except.ok.injEq, List.nil_append, List.map_map, Body.terminals,
      List.foldl_nil, Grammar.mk.injEq, true_and, and_true]
    refine List.map_congr_left fun state _ => ?_
    simp [walksFrom_eq_iff, walkBodies]
  · simpa [Body.nonterminals, Grammar.nonterminals] using
      ⟨sys.final, mem_inOrder.2 sys.final_mem, rfl⟩

theorem addProduction_walkEdge {given : List (Nat × Transition)} {p : Nat × Transition}
    (source : p.2.source ∈ sys.states) (target : p.2.target ∈ sys.states) :
    (sys.walksAlong given).addProduction (walkEdge p) = .ok (sys.walksAlong (given ++ [p])) := by
  rw [addProduction_of_known]
  · simp only [walksAlong, Except.ok.injEq, List.map_map, Grammar.mk.injEq, true_and, and_true,
      List.foldl_append]
    refine ⟨List.map_congr_left fun state _ => ?_, rfl⟩
    by_cases here : p.2.source = state
    · simp [walkEdge, walkBodies, here]
    · simp [walkEdge, walkBodies, walksFrom_eq_iff, here, Ne.symm here]
  · intro name mem
    have either : name = walksFrom p.2.source ∨ name = walksFrom p.2.target := by
      simpa [walkEdge, Body.nonterminals] using mem
    rcases either with rfl | rfl
    · exact walksFrom_mem source
    · exact walksFrom_mem target

theorem foldlM_walkEdge (rest given : List (Nat × Transition))
    (known : ∀ p ∈ rest, p.2.source ∈ sys.states ∧ p.2.target ∈ sys.states) :
    rest.foldlM (fun g p => g.addProduction (walkEdge p)) (sys.walksAlong given) =
      .ok (sys.walksAlong (given ++ rest)) := by
  induction rest generalizing given with
  | nil => simp [pure, Except.pure]
  | cons p rest ih =>
    obtain ⟨source, target⟩ := known p List.mem_cons_self
    rw [List.foldlM_cons, addProduction_walkEdge source target]
    have later := ih (given ++ [p]) fun q mem => known q (List.mem_cons_of_mem _ mem)
    rw [List.append_assoc] at later
    exact later

theorem mem_transitions_of_live {p : Nat × Transition} (live : p ∈ sys.liveTransitions) :
    p.2 ∈ sys.transitions := by
  obtain ⟨⟨⟨t, alive⟩, index⟩, mem, found⟩ := List.mem_filterMap.1 live
  have here : t ∈ sys.transitions :=
    (List.of_mem_zip (List.fst_mem_of_mem_zipIdx mem)).1
  cases alive with
  | false => cases found
  | true =>
    cases found
    exact here

/-- Building the grammar succeeds, with each state's own productions. -/
theorem walkGrammar_eq (sys : CounterSystem) : sys.walkGrammar = .ok sys.walks := by
  have known : ∀ p ∈ sys.liveTransitions, p.2.source ∈ sys.states ∧ p.2.target ∈ sys.states :=
    fun p live =>
      have fits := sys.fits p.2 (mem_transitions_of_live live)
      ⟨fits.1, fits.2.1⟩
  have linked := foldlM_walkEdge sys.liveTransitions [] known
  have begins : walksFrom sys.initial ∈ (sys.walksAlong sys.liveTransitions).nonterminals :=
    walksFrom_mem sys.initial_mem
  rw [walkGrammar, addProduction_epsilon]
  simp only [bind, Except.bind]
  rw [linked]
  simp only [List.nil_append, Grammar.setStart, if_pos begins]
  rfl

theorem linear_of_mem_walkBodies {given : List (Nat × Transition)} {state : Ident} {body : Body Int}
    (mem : body ∈ sys.walkBodies given state) : Grammar.Linear body := by
  rcases List.mem_append.1 mem with here | here
  · split at here
    · rw [List.mem_singleton.1 here]
      exact ⟨Nat.zero_le _, Nat.zero_le _⟩
    · cases here
  · obtain ⟨p, -, rfl⟩ := List.mem_map.1 here
    exact ⟨Nat.le_refl _, Nat.le_refl _⟩

/-- The shortest lengths of the walks can be found. -/
theorem shortestLengths_walks (sys : CounterSystem) :
    ∃ table, sys.walks.shortestLengths = .ok table := by
  apply Grammar.shortestLengths_of_linear
  intro p mem
  obtain ⟨rule, inside, here⟩ := List.mem_flatMap.1 mem
  obtain ⟨state, -, rfl⟩ := List.mem_map.1 inside
  obtain ⟨body, bodies, rfl⟩ := List.mem_map.1 here
  exact linear_of_mem_walkBodies bodies

theorem exists_trimmedWalks (sys : CounterSystem) : ∃ g, sys.trimmedWalks = .ok g := by
  obtain ⟨table, lengths⟩ := shortestLengths_walks sys
  refine ⟨sys.walks.trimTo table.productive, ?_⟩
  simp only [trimmedWalks, walkGrammar_eq, bind, Except.bind, Grammar.trim, Grammar.productive,
    lengths]
  rfl

end CounterSystem
end ZeroRun
