import Mathlib
import ZeroRun.Proofs.Grammar.Sweep

/-! Trimming, rule by rule. A nonterminal survives if it derives a word and the start symbol leads
to it through nonterminals that do; a right-hand side survives if all its nonterminals derive a
word. So nothing that a derivation needs is lost, and what survives derives the same words. -/
namespace ZeroRun.Grammar
open Relation (ReflTransGen)

variable {τ : Type} {g : Grammar τ} {name : Ident}

/-- Only nonterminals of the grammar have right-hand sides. -/
theorem mem_nonterminals_of_body {body : Body τ} (rule : body ∈ g.bodies name) :
    name ∈ g.nonterminals := by
  obtain ⟨bodies, rule, -⟩ := exists_rule_of_body rule
  exact List.mem_map.2 ⟨_, rule, rfl⟩

theorem mem_nonterminals_of_derives {word : List τ} (derives : g.Derives [.nonterminal name] word) :
    name ∈ g.nonterminals := by
  cases derives with
  | unfold rule => exact mem_nonterminals_of_body rule

/-! ## What the start symbol leads to -/

/-- A right-hand side of one nonterminal mentions another. -/
def LeadsTo (g : Grammar τ) (a b : Ident) : Prop :=
  ∃ body ∈ g.bodies a, b ∈ body.nonterminals

theorem mem_reachable (wellFormed : g.WellFormed) {start : Ident} (begins : g.start = some start)
    (known : start ∈ g.nonterminals) : name ∈ g.reachable ↔ ReflTransGen g.LeadsTo start name := by
  have first : g.start.toList = [start] := by rw [begins, Option.toList_some]
  have closed : ∀ x ∈ g.nonterminals, ∀ y ∈ (g.bodies x).flatMap Body.nonterminals,
      y ∈ g.nonterminals := by
    intro x _ y mem
    obtain ⟨body, rule, inside⟩ := List.mem_flatMap.1 mem
    exact wellFormed.known_of_body rule inside
  rw [reachable, mem_spread g.nonterminals (by simp [first]) (by simpa [first] using known) closed
    (by simp [first, nonterminals])]
  simp only [first, List.mem_singleton, exists_eq_left, List.mem_flatMap]
  rfl

/-! ## Pruning -/

/-- Do all nonterminals of a right-hand side derive a word? -/
noncomputable def keeps (g : Grammar τ) (body : Body τ) : Bool :=
  body.nonterminals.all (· ∈ g.yields.productive)

/-- The grammar without the nonterminals that derive no word. -/
noncomputable def prune (g : Grammar τ) : Grammar τ :=
  { g with
    rules := (g.rules.filter fun rule => rule.1 ∈ g.yields.productive).map fun (name, bodies) =>
      (name, bodies.filter g.keeps) }

/-- The grammar without what takes no part in a derivation of a word. -/
noncomputable def trimmed (g : Grammar τ) : Grammar τ :=
  g.trimTo g.yields.productive

/-- Trimming gives the trimmed grammar, unless the shortest lengths are out of range. -/
theorem trim_of_shortestLengths (wellFormed : g.WellFormed) {table : Yields}
    (found : g.shortestLengths = .ok table) : g.trim = .ok g.trimmed := by
  rw [trim, productive, found, eq_yields_of_shortestLengths wellFormed found]
  rfl

theorem trim_of_error {e : Error} (fails : g.shortestLengths = .error e) : g.trim = .error e := by
  rw [trim, productive, fails]
  rfl

/-- If trimming succeeds, it gives the trimmed grammar. -/
theorem eq_trimmed_of_trim (wellFormed : g.WellFormed) {next : Grammar τ}
    (done : g.trim = .ok next) : next = g.trimmed := by
  cases found : g.shortestLengths with
  | error e => cases done.symm.trans (trim_of_error found)
  | ok table =>
    cases done.symm.trans (trim_of_shortestLengths wellFormed found)
    rfl

theorem trimmed_of_productive {start : Ident} (begins : g.start = some start)
    (productive : start ∈ g.yields.productive) :
    g.trimmed = { g.prune with
      rules := g.prune.rules.filter fun rule => rule.1 ∈ g.prune.reachable } := by
  obtain ⟨title, rules, terminals, first⟩ := g
  subst begins
  exact if_pos productive

theorem trimmed_of_not_productive {start : Ident} (begins : g.start = some start)
    (barren : start ∉ g.yields.productive) : g.trimmed = { name := g.name } := by
  simp [trimmed, trimTo, begins, barren]

theorem bodies_prune :
    g.prune.bodies name =
      if name ∈ g.yields.productive then (g.bodies name).filter g.keeps else [] := by
  rw [bodies, prune, lookup_map_value, lookup_filter_key g.rules (· ∈ g.yields.productive)]
  by_cases productive : name ∈ g.yields.productive
  · rw [if_pos (decide_eq_true productive), if_pos productive, bodies]
    cases g.rules.lookup name <;> rfl
  · rw [if_neg (by simpa using productive), if_neg productive]
    rfl

theorem bodies_trimmed {start : Ident} (begins : g.start = some start)
    (productive : start ∈ g.yields.productive) :
    g.trimmed.bodies name = if name ∈ g.prune.reachable then g.prune.bodies name else [] := by
  rw [trimmed_of_productive begins productive, bodies]
  dsimp only
  rw [lookup_filter_key g.prune.rules (· ∈ g.prune.reachable)]
  by_cases reached : name ∈ g.prune.reachable
  · rw [if_pos (decide_eq_true reached), if_pos reached, bodies]
  · rw [if_neg (by simpa using reached), if_neg reached]
    rfl

/-- Does a right-hand side of one nonterminal mention another, after pruning? -/
def Mentions (g : Grammar τ) (a b : Ident) : Prop :=
  ∃ body ∈ g.prune.bodies a, b ∈ body.nonterminals

theorem mem_nonterminals_prune (nodup : g.nonterminals.Nodup) (mem : name ∈ g.yields.productive) :
    name ∈ g.prune.nonterminals := by
  obtain ⟨word, derives⟩ := (g.mem_productive nodup).1 mem
  obtain ⟨rule, inside, rfl⟩ := List.mem_map.1 (mem_nonterminals_of_derives derives)
  refine List.mem_map.2 ⟨(rule.1, rule.2.filter g.keeps), List.mem_map.2 ⟨rule, ?_, rfl⟩, rfl⟩
  simp [inside, mem]

theorem nodup_prune (nodup : g.nonterminals.Nodup) : g.prune.nonterminals.Nodup := by
  have names : g.prune.nonterminals =
      (g.rules.filter fun rule => rule.1 ∈ g.yields.productive).map Prod.fst := by
    rw [nonterminals, prune, List.map_map]
    rfl
  rw [names]
  exact nodup.sublist (List.filter_sublist.map _)

/-- What is left after pruning mentions nothing that is pruned away. -/
theorem wellFormed_prune (nodup : g.nonterminals.Nodup) : g.prune.WellFormed := by
  refine ⟨nodup_prune nodup, fun rule mem body inside other named => ?_⟩
  obtain ⟨whole, -, rfl⟩ := List.mem_map.1 mem
  have kept := List.all_eq_true.1 (List.mem_filter.1 inside).2 other named
  exact mem_nonterminals_prune nodup (of_decide_eq_true kept)

theorem mem_reachable_prune (nodup : g.nonterminals.Nodup) {start : Ident}
    (begins : g.start = some start) (productive : start ∈ g.yields.productive) :
    name ∈ g.prune.reachable ↔ ReflTransGen g.Mentions start name :=
  mem_reachable (wellFormed_prune nodup) begins (mem_nonterminals_prune nodup productive)

/-! ## What survives -/

/-- The nonterminals of a right-hand side among its symbols. -/
theorem nonterminal_mem_symbols {body : Body τ} :
    .nonterminal name ∈ body.symbols ↔ name ∈ body.nonterminals := by
  cases body <;> simp [Body.symbols, Body.nonterminals]

/-- Every nonterminal of a state with a word has a word of its own. -/
theorem Derives.exists_of_mem {state : DerivationState τ} {word : List τ}
    (derives : g.Derives state word) (mem : .nonterminal name ∈ state) :
    ∃ part, g.Derives [.nonterminal name] part := by
  obtain ⟨before, after, rfl⟩ := List.append_of_mem mem
  obtain ⟨u, v, rfl, -, rest⟩ := derives.split
  obtain ⟨part, w, rfl, own, -⟩ := Derives.split (a := [.nonterminal name]) rest
  exact ⟨part, own⟩

variable {start : Ident} {state : DerivationState τ} {word : List τ}

theorem keeps_of_derives (nodup : g.nonterminals.Nodup) {body : Body τ}
    (derives : g.Derives (body.symbols ++ state) word) : g.keeps body = true := by
  refine List.all_eq_true.2 fun other mem => decide_eq_true ?_
  refine (g.mem_productive nodup).2 (derives.exists_of_mem ?_)
  exact List.mem_append_left _ (nonterminal_mem_symbols.2 mem)

/-- A right-hand side from which a word can be derived is not pruned away. -/
theorem mem_bodies_prune (nodup : g.nonterminals.Nodup) {body : Body τ}
    (rule : body ∈ g.bodies name) (derives : g.Derives (body.symbols ++ state) word) :
    body ∈ g.prune.bodies name := by
  have own : name ∈ g.yields.productive := by
    have here : g.Derives (.nonterminal name :: state) word := .unfold rule derives
    exact (g.mem_productive nodup).2 (here.exists_of_mem List.mem_cons_self)
  rw [bodies_prune, if_pos own]
  exact List.mem_filter.2 ⟨rule, keeps_of_derives nodup derives⟩

/-- A derivation from surviving nonterminals uses nothing that is trimmed away. -/
theorem Derives.trimmed (nodup : g.nonterminals.Nodup) (begins : g.start = some start)
    (productive : start ∈ g.yields.productive)
    (survives : ∀ name, .nonterminal name ∈ state → name ∈ g.prune.reachable)
    (derives : g.Derives state word) : g.trimmed.Derives state word := by
  induction derives with
  | nil => exact .nil
  | emit t tail ih =>
    exact .emit t (ih fun name mem => survives name (List.mem_cons_of_mem _ mem))
  | @unfold rest word name body rule inner ih =>
    have reached := survives name List.mem_cons_self
    have stays := mem_bodies_prune nodup rule inner
    have rule : body ∈ g.trimmed.bodies name := by
      rwa [bodies_trimmed begins productive, if_pos reached]
    refine .unfold rule (ih fun other mem => ?_)
    rcases List.mem_append.1 mem with inside | later
    · rw [mem_reachable_prune nodup begins productive] at reached ⊢
      exact reached.tail ⟨body, stays, nonterminal_mem_symbols.1 inside⟩
    · exact survives other (List.mem_cons_of_mem _ later)

/-- Trimming adds no right-hand side. -/
theorem mem_bodies_of_trimmed {body : Body τ} (rule : body ∈ g.trimmed.bodies name) :
    body ∈ g.bodies name := by
  cases begins : g.start with
  | none =>
    rw [trimmed, trimTo, begins] at rule
    cases rule
  | some start =>
    by_cases productive : start ∈ g.yields.productive
    · rw [bodies_trimmed begins productive, bodies_prune] at rule
      split at rule
      · split at rule
        · exact (List.mem_filter.1 rule).1
        · cases rule
      · cases rule
    · rw [trimmed_of_not_productive begins productive] at rule
      cases rule

theorem derives_of_trimmed (derives : g.trimmed.Derives state word) : g.Derives state word := by
  induction derives with
  | nil => exact .nil
  | emit t _ ih => exact .emit t ih
  | unfold rule _ ih => exact .unfold (mem_bodies_of_trimmed rule) ih

/-- A surviving nonterminal derives the same words as before. -/
theorem derives_trimmed_iff (nodup : g.nonterminals.Nodup) (begins : g.start = some start)
    (productive : start ∈ g.yields.productive) (reached : name ∈ g.prune.reachable) :
    g.trimmed.Derives [.nonterminal name] word ↔ g.Derives [.nonterminal name] word := by
  refine ⟨derives_of_trimmed, fun derives => derives.trimmed nodup begins productive ?_⟩
  intro other mem
  cases List.mem_singleton.1 mem
  exact reached

/-- What survives mentions nothing that is trimmed away. -/
theorem wellFormed_trimmed (nodup : g.nonterminals.Nodup) : g.trimmed.WellFormed := by
  cases begins : g.start with
  | none =>
    rw [trimmed, trimTo, begins]
    exact ⟨List.nodup_nil, fun rule mem => absurd mem List.not_mem_nil⟩
  | some start =>
    by_cases productive : start ∈ g.yields.productive
    · have pruned := wellFormed_prune nodup
      rw [trimmed_of_productive begins productive]
      refine ⟨pruned.nodup.sublist (List.filter_sublist.map _), ?_⟩
      intro rule mem body inside other named
      obtain ⟨whole, reached⟩ := List.mem_filter.1 mem
      have stays : body ∈ g.prune.bodies rule.1 := by
        rw [bodies, (lookup_eq_some_iff pruned.nodup).2 whole]
        exact inside
      have reached : other ∈ g.prune.reachable := by
        have reached := of_decide_eq_true reached
        rw [mem_reachable_prune nodup begins productive] at reached ⊢
        exact reached.tail ⟨body, stays, named⟩
      obtain ⟨entry, there, rfl⟩ := List.mem_map.1 (pruned.known_of_body stays named)
      exact List.mem_map_of_mem (List.mem_filter.2 ⟨there, decide_eq_true reached⟩)
    · rw [trimmed_of_not_productive begins productive]
      exact ⟨List.nodup_nil, fun rule mem => absurd mem List.not_mem_nil⟩

end ZeroRun.Grammar
