import Mathlib
import ZeroRun.Proofs.Circle
import ZeroRun.Proofs.Grammar.Closure
import ZeroRun.Proofs.Grammar.Trim

/-! Left recursion. A grammar is left-recursive if unfolding can bring a nonterminal back to the
left end. Exactly these grammars are refused. In all others, a nonterminal is used up after a number
of unfoldings that depends on how many others can come to the left end after it. -/
namespace ZeroRun.Grammar
open Relation (ReflTransGen TransGen)

variable {τ : Type} {g : Grammar τ} {name other : Ident} {a b state : DerivationState τ}
  {word : List τ}

/-! ## Unfolding -/

/-- The first state can be unfolded to the second. -/
def Unfolds (g : Grammar τ) (a b : DerivationState τ) : Prop :=
  b ∈ g.unfold a

/-- Some nonterminal comes back to the left end when it is unfolded. -/
def LeftRecursive (g : Grammar τ) : Prop :=
  ∃ name rest, TransGen g.Unfolds [.nonterminal name] (.nonterminal name :: rest)

/-- The leftmost symbol is a nonterminal and makes place for a right-hand side. -/
theorem unfolds_iff : g.Unfolds a b ↔ ∃ name rest, ∃ body ∈ g.bodies name,
    a = .nonterminal name :: rest ∧ b = body.symbols ++ rest := by
  constructor
  · intro unfolds
    cases a with
    | nil => cases unfolds
    | cons symbol rest =>
      cases symbol with
      | terminal t => cases unfolds
      | nonterminal name =>
        obtain ⟨body, rule, same⟩ := List.mem_map.1 unfolds
        exact ⟨name, rest, body, rule, rfl, same.symm⟩
  · rintro ⟨name, rest, body, rule, rfl, rfl⟩
    exact List.mem_map.2 ⟨body, rule, rfl⟩

/-- What comes after does not hinder unfolding. -/
theorem Unfolds.append (unfolds : g.Unfolds a b) (rest : DerivationState τ) :
    g.Unfolds (a ++ rest) (b ++ rest) := by
  obtain ⟨name, tail, body, rule, rfl, rfl⟩ := unfolds_iff.1 unfolds
  exact unfolds_iff.2 ⟨name, tail ++ rest, body, rule, rfl, List.append_assoc _ _ _⟩

/-- A state is unfolded until its word begins, or until nothing is left. -/
theorem Derives.leads (derives : g.Derives state word) :
    ∃ ready, ReflTransGen g.Unfolds state ready ∧ Ready ready ∧ g.Derives ready word := by
  induction derives with
  | nil => exact ⟨[], .refl, trivial, .nil⟩
  | emit t tail => exact ⟨_, .refl, trivial, .emit t tail⟩
  | unfold rule _ ih =>
    obtain ⟨ready, path, stops, derives⟩ := ih
    exact ⟨ready, .head (unfolds_iff.2 ⟨_, _, _, rule, rfl, rfl⟩) path, stops, derives⟩

theorem Derives.leads_nil (derives : g.Derives state []) : ReflTransGen g.Unfolds state [] := by
  obtain ⟨ready, path, stops, derives⟩ := derives.leads
  cases derives with
  | nil => exact path
  | unfold => exact absurd stops id

/-- What an unfolded state derives, the state derives. -/
theorem derives_of_leads (path : ReflTransGen g.Unfolds a b) (derives : g.Derives b word) :
    g.Derives a word := by
  induction path using ReflTransGen.head_induction_on with
  | refl => exact derives
  | head step _ ih =>
    obtain ⟨name, tail, body, rule, rfl, rfl⟩ := unfolds_iff.1 step
    exact .unfold rule ih

/-! ## Left corners -/

theorem exists_parts_of_mem_leadingNames (nodup : g.nonterminals.Nodup)
    (mem : other ∈ leadingNames g.yields.nullable state) :
    ∃ before after, state = before ++ .nonterminal other :: after ∧ g.Derives before [] := by
  induction state with
  | nil => cases mem
  | cons symbol rest ih =>
    cases symbol with
    | terminal t => cases mem
    | nonterminal name =>
      rw [leadingNames, List.mem_cons] at mem
      rcases mem with rfl | mem
      · exact ⟨[], rest, rfl, .nil⟩
      · by_cases empty : name ∈ g.yields.nullable
        · rw [if_pos empty] at mem
          obtain ⟨before, after, rfl, derives⟩ := ih mem
          exact ⟨.nonterminal name :: before, after, rfl,
            ((g.mem_nullable nodup).1 empty).append derives⟩
        · rw [if_neg empty] at mem
          cases mem

/-- The second nonterminal can come to the left end when the first is unfolded once. -/
def Corner (g : Grammar τ) (name other : Ident) : Prop :=
  ∃ body ∈ g.bodies name, other ∈ leadingNames g.yields.nullable body.symbols

theorem Corner.unfolds (nodup : g.nonterminals.Nodup) (corner : g.Corner name other) :
    ∃ rest, TransGen g.Unfolds [.nonterminal name] (.nonterminal other :: rest) := by
  obtain ⟨body, rule, mem⟩ := corner
  obtain ⟨before, after, symbols, derives⟩ := exists_parts_of_mem_leadingNames nodup mem
  refine ⟨after, .head' (unfolds_iff.2 ⟨name, [], body, rule, rfl, rfl⟩) ?_⟩
  rw [List.append_nil, symbols]
  exact derives.leads_nil.lift (· ++ .nonterminal other :: after) fun _ _ step => step.append _

theorem unfolds_of_corners (nodup : g.nonterminals.Nodup) (path : TransGen g.Corner name other) :
    ∃ rest, TransGen g.Unfolds [.nonterminal name] (.nonterminal other :: rest) := by
  induction path with
  | single corner => exact corner.unfolds nodup
  | tail _ corner ih =>
    obtain ⟨rest, path⟩ := ih
    obtain ⟨further, step⟩ := corner.unfolds nodup
    exact ⟨further ++ rest, path.trans (step.lift (· ++ rest) fun _ _ step => step.append rest)⟩

/-- No nonterminal is led back to itself by corners. -/
def Acyclic (g : Grammar τ) : Prop :=
  ∀ name, ¬ TransGen g.Corner name name

/-- Where right-hand sides begin with terminals, there are no corners. -/
theorem Guarded.acyclic (guarded : g.Guarded) : g.Acyclic := by
  intro name cycle
  obtain ⟨other, ⟨body, rule, mem⟩, -⟩ := TransGen.head'_iff.1 cycle
  rw [leadingNames_of_ready (guarded.ready_of_body rule)] at mem
  cases mem

/-- A well-formed grammar in which unfolding comes to an end. -/
structure Proper (g : Grammar τ) : Prop where
  wellFormed : g.WellFormed
  acyclic : g.Acyclic

theorem WellFormed.proper (wellFormed : g.WellFormed) (forward : ¬ g.LeftRecursive) :
    g.Proper := by
  refine ⟨wellFormed, fun name cycle => ?_⟩
  obtain ⟨rest, path⟩ := unfolds_of_corners wellFormed.nodup cycle
  exact forward ⟨name, rest, path⟩

theorem mem_nonterminals_of_mem_leadingNames {body : Body τ} {nullable : List Ident}
    (mem : other ∈ leadingNames nullable body.symbols) : other ∈ body.nonterminals := by
  cases body with
  | edge t next => cases mem
  | excursion opening inner closing => cases mem
  | epsilon => cases mem
  | concat left right =>
    simp only [Body.symbols, Body.nonterminals, leadingNames] at mem ⊢
    split at mem
    · simpa using mem
    · simp_all

/-! ## Ranks -/

open Classical in
/-- The number of nonterminals that corners lead to. -/
noncomputable def rank (g : Grammar τ) (name : Ident) : Nat :=
  (g.nonterminals.toFinset.filter fun other => TransGen g.Corner name other).card

theorem card_nonterminals_le (g : Grammar τ) : g.nonterminals.toFinset.card ≤ g.rules.length := by
  have le := List.toFinset_card_le g.nonterminals
  rwa [nonterminals, List.length_map] at le

theorem rank_le (g : Grammar τ) (name : Ident) : g.rank name ≤ g.rules.length := by
  classical
  exact (Finset.card_filter_le _ _).trans g.card_nonterminals_le

/-- Corners have a smaller rank. -/
theorem rank_lt (proper : g.Proper) (corner : g.Corner name other) :
    g.rank other < g.rank name := by
  classical
  have known : other ∈ g.nonterminals := by
    obtain ⟨body, rule, mem⟩ := corner
    exact proper.wellFormed.known_of_body rule (mem_nonterminals_of_mem_leadingNames mem)
  apply Finset.card_lt_card
  refine Finset.ssubset_iff_of_subset ?_ |>.2 ⟨other, ?_, ?_⟩
  · intro further mem
    obtain ⟨inside, path⟩ := Finset.mem_filter.1 mem
    exact Finset.mem_filter.2 ⟨inside, .head corner path⟩
  · exact Finset.mem_filter.2 ⟨List.mem_toFinset.2 known, .single corner⟩
  · intro mem
    exact proper.acyclic other (Finset.mem_filter.1 mem).2

/-- A bound on the number of unfoldings until a terminal comes to the left end. -/
noncomputable def cost (g : Grammar τ) : DerivationState τ → Nat
  | .nonterminal name :: rest =>
    3 ^ g.rank name + if name ∈ g.yields.nullable then cost g rest else 0
  | _ => 0

theorem cost_le (g : Grammar τ) (state : DerivationState τ) :
    g.cost state ≤ state.length * 3 ^ g.rules.length := by
  induction state with
  | nil => exact Nat.zero_le _
  | cons symbol rest ih =>
    cases symbol with
    | terminal t => exact Nat.zero_le _
    | nonterminal name =>
      have head : 3 ^ g.rank name ≤ 3 ^ g.rules.length :=
        Nat.pow_le_pow_right (by decide) (g.rank_le name)
      rw [cost, List.length_cons, Nat.succ_mul]
      split <;> omega

/-- Three of a smaller rank cost no more than one of a larger. -/
theorem three_mul_pow_rank_le (smaller : g.rank other < g.rank name) :
    3 * 3 ^ g.rank other ≤ 3 ^ g.rank name := by
  rw [← Nat.pow_succ']
  exact Nat.pow_le_pow_right (by decide) smaller

/-- Each unfolding takes from the cost. -/
theorem Unfolds.cost_lt (unfolds : g.Unfolds a b) (proper : g.Proper) : g.cost b < g.cost a := by
  obtain ⟨name, rest, body, rule, rfl, rfl⟩ := unfolds_iff.1 unfolds
  have positive : 0 < 3 ^ g.rank name := Nat.pow_pos (by decide)
  rw [cost]
  cases body with
  | edge t next => exact Nat.add_pos_left positive _
  | excursion opening inner closing => exact Nat.add_pos_left positive _
  | epsilon =>
    have empty : name ∈ g.yields.nullable :=
      (g.mem_nullable proper.wellFormed.nodup).2 (.unfold rule .nil)
    rw [if_pos empty]
    exact Nat.lt_add_of_pos_left positive
  | concat left right =>
    have corner : g.Corner name left := ⟨_, rule, List.mem_cons_self⟩
    have first := three_mul_pow_rank_le (rank_lt proper corner)
    simp only [Body.symbols, List.cons_append, List.nil_append, cost]
    by_cases skip : left ∈ g.yields.nullable
    · have corner : g.Corner name right :=
        ⟨_, rule, by simp [Body.symbols, leadingNames, skip]⟩
      have second := three_mul_pow_rank_le (rank_lt proper corner)
      rw [if_pos skip]
      by_cases empty : right ∈ g.yields.nullable
      · have both : name ∈ g.yields.nullable := by
          rw [g.mem_nullable proper.wellFormed.nodup] at skip empty ⊢
          exact .unfold rule (skip.append empty)
        rw [if_pos empty, if_pos both]
        omega
      · rw [if_neg empty]
        omega
    · rw [if_neg skip]
      omega

theorem cost_lt_of_path (proper : g.Proper) (path : TransGen g.Unfolds a b) :
    g.cost b < g.cost a := by
  induction path with
  | single step => exact step.cost_lt proper
  | tail _ step ih => exact (step.cost_lt proper).trans ih

/-- A nonterminal comes back to the left end if corners lead it back to itself. -/
theorem leftRecursive_iff_cycle (wellFormed : g.WellFormed) :
    g.LeftRecursive ↔ ∃ name, TransGen g.Corner name name := by
  constructor
  · rintro ⟨name, rest, path⟩
    -- Otherwise each unfolding takes from the cost, which the nonterminal at the left end bounds.
    by_contra none
    have acyclic : g.Acyclic := fun name cycle => none ⟨name, cycle⟩
    have falls := cost_lt_of_path ⟨wellFormed, acyclic⟩ path
    simp only [cost, ite_self] at falls
    omega
  · rintro ⟨name, cycle⟩
    obtain ⟨rest, path⟩ := unfolds_of_corners wellFormed.nodup cycle
    exact ⟨name, rest, path⟩

theorem Proper.not_leftRecursive (proper : g.Proper) : ¬ g.LeftRecursive := by
  rw [leftRecursive_iff_cycle proper.wellFormed]
  rintro ⟨name, cycle⟩
  exact proper.acyclic name cycle

/-! ## The check -/

theorem mem_cornersOf {nullable : List Ident} :
    other ∈ cornersOf (g.leftCorners nullable) name ↔
      ∃ body ∈ g.bodies name, other ∈ leadingNames nullable body.symbols := by
  have found : (g.leftCorners nullable).lookup name = (g.rules.lookup name).map fun bodies =>
      distinct (bodies.flatMap fun body => leadingNames nullable body.symbols) :=
    lookup_map_value g.rules
      (fun bodies =>
        distinct (bodies.flatMap fun body : Body τ => leadingNames nullable body.symbols))
      name
  rw [cornersOf, found, bodies]
  cases g.rules.lookup name with
  | none => simp
  | some bodies => simp [mem_distinct]

theorem leads_cornersOf :
    Circle.Leads (cornersOf (g.leftCorners g.yields.nullable)) = g.Corner := by
  funext name other
  exact propext mem_cornersOf

theorem WellFormed.cornersOf_subset (wellFormed : g.WellFormed) (nullable : List Ident) :
    ∀ name ∈ g.nonterminals, cornersOf (g.leftCorners nullable) name ⊆ g.nonterminals := by
  intro name _ other mem
  obtain ⟨body, rule, leads⟩ := mem_cornersOf.1 mem
  exact wellFormed.known_of_body rule (mem_nonterminals_of_mem_leadingNames leads)

theorem checkLeftRecursion_of_error {e : Error} (fails : g.shortestLengths = .error e) :
    g.checkLeftRecursion = .error e := by
  rw [checkLeftRecursion, nullable, fails]
  rfl

/-- A grammar whose shortest lengths are known is accepted, and then no corners lead back, or it is
refused, and then the corners of the nonterminal that is named do. -/
theorem checkLeftRecursion_cases (wellFormed : g.WellFormed) {table : Yields}
    (found : g.shortestLengths = .ok table) :
    (g.checkLeftRecursion = .ok () ∧ g.Acyclic) ∨
      ∃ name, g.checkLeftRecursion = .error (.leftRecursive g.name name) ∧
        TransGen g.Corner name name := by
  have closed := wellFormed.cornersOf_subset g.yields.nullable
  have check : g.checkLeftRecursion =
      (Circle.find? (cornersOf (g.leftCorners g.yields.nullable)) g.nonterminals).elim (.ok ())
        fun name => .error (.leftRecursive g.name name) := by
    rw [checkLeftRecursion, nullable, found, eq_yields_of_shortestLengths wellFormed found]
    simp only [bind, Except.bind, pure, Except.pure]
    cases Circle.find? (cornersOf (g.leftCorners g.yields.nullable)) g.nonterminals <;> rfl
  rw [check]
  cases searched : Circle.find? (cornersOf (g.leftCorners g.yields.nullable)) g.nonterminals with
  | none =>
    refine .inl ⟨rfl, fun name cycle => ?_⟩
    obtain ⟨other, ⟨body, rule, -⟩, -⟩ := TransGen.head'_iff.1 cycle
    refine Circle.not_circle_of_find? closed searched (mem_nonterminals_of_body rule) ?_
    rwa [leads_cornersOf]
  | some name =>
    have cycle := Circle.circle_of_find? closed searched
    rw [leads_cornersOf] at cycle
    exact .inr ⟨name, rfl, cycle⟩

/-- A grammar in which unfolding comes to an end is accepted, if its shortest lengths are known. -/
theorem Proper.checkLeftRecursion (proper : g.Proper) {table : Yields}
    (found : g.shortestLengths = .ok table) : g.checkLeftRecursion = .ok () := by
  rcases checkLeftRecursion_cases proper.wellFormed found with ⟨accepted, -⟩ | ⟨name, -, cycle⟩
  · exact accepted
  · exact absurd cycle (proper.acyclic name)

theorem proper_of_checkLeftRecursion (wellFormed : g.WellFormed)
    (accepted : g.checkLeftRecursion = .ok ()) : g.Proper := by
  cases found : g.shortestLengths with
  | error e => cases accepted.symm.trans (checkLeftRecursion_of_error found)
  | ok table =>
    rcases checkLeftRecursion_cases wellFormed found with ⟨-, acyclic⟩ | ⟨name, refused, -⟩
    · exact ⟨wellFormed, acyclic⟩
    · cases accepted.symm.trans refused

end ZeroRun.Grammar
