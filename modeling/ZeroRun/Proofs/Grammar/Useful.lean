import Mathlib
import ZeroRun.Proofs.Grammar.Trim

/-! What trimming keeps. A nonterminal is useful if it stands in a form between the start symbol
and a word, and a production is useful if it is applied there. Trimming keeps what is useful and
nothing else. All of it is still useful in the trimmed grammar, so there is nothing to trim a
second time. -/
namespace ZeroRun.Grammar
open Relation (ReflTransGen)

variable {τ : Type} {g : Grammar τ} {start name : Ident} {symbols : DerivationState τ}

/-! ## Pruning and derivations -/

theorem mem_nonterminals_prune_iff (nodup : g.nonterminals.Nodup) :
    name ∈ g.prune.nonterminals ↔ name ∈ g.yields.productive := by
  refine ⟨fun mem => ?_, mem_nonterminals_prune nodup⟩
  obtain ⟨_, entry, rfl⟩ := List.mem_map.1 mem
  obtain ⟨rule, kept, rfl⟩ := List.mem_map.1 entry
  exact of_decide_eq_true (List.mem_filter.1 kept).2

theorem exists_derives_of_productive (nodup : g.nonterminals.Nodup)
    (productive : ∀ name, .nonterminal name ∈ symbols → name ∈ g.yields.productive) :
    ∃ word, g.Derives symbols word := by
  induction symbols with
  | nil => exact ⟨[], .nil⟩
  | cons symbol symbols ih =>
    obtain ⟨v, right⟩ := ih fun name mem => productive name (List.mem_cons_of_mem _ mem)
    cases symbol with
    | terminal t => exact ⟨t :: v, .emit t right⟩
    | nonterminal name =>
      obtain ⟨u, left⟩ := (g.mem_productive nodup).1 (productive name List.mem_cons_self)
      exact ⟨u ++ v, left.append right⟩

theorem exists_derives_of_keeps (nodup : g.nonterminals.Nodup) {body : Body τ}
    (kept : g.keeps body = true) : ∃ word, g.Derives body.symbols word := by
  refine exists_derives_of_productive nodup fun other mem => ?_
  exact of_decide_eq_true (List.all_eq_true.1 kept other (nonterminal_mem_symbols.1 mem))

/-- The right-hand sides that are left are those from which a word can be derived. -/
theorem mem_bodies_prune_iff (nodup : g.nonterminals.Nodup) {body : Body τ} :
    body ∈ g.prune.bodies name ↔ body ∈ g.bodies name ∧ ∃ word, g.Derives body.symbols word := by
  constructor
  · intro rule
    rw [bodies_prune] at rule
    split at rule
    · obtain ⟨rule, kept⟩ := List.mem_filter.1 rule
      exact ⟨rule, exists_derives_of_keeps nodup kept⟩
    · cases rule
  · rintro ⟨rule, word, derives⟩
    have whole : g.Derives (body.symbols ++ []) word := by rwa [List.append_nil]
    exact mem_bodies_prune nodup rule whole

/-! ## Between the start symbol and a word -/

section Forms
variable [DecidableEq τ]

/-- The start symbol derives a form with the nonterminal, and with these symbols in its place the
form derives a word. -/
def Serves (g : Grammar τ) (name : Ident) (symbols : DerivationState τ) : Prop :=
  ∃ start before after, ∃ word : List τ, g.start = some start ∧
    (g.contextFree start).Derives [.nonterminal start] (before ++ [.nonterminal name] ++ after) ∧
    (g.contextFree start).Derives (before ++ symbols.map Symbol.general ++ after)
      (word.map .terminal)

/-- The nonterminal stands in a form between the start symbol and a word. -/
def Useful (g : Grammar τ) (name : Ident) : Prop :=
  g.Serves name [.nonterminal name]

/-- The production is applied between the start symbol and a word. -/
def UsefulProduction (g : Grammar τ) (p : Production τ) : Prop :=
  p ∈ g.allProductions ∧ g.Serves p.lhs p.body.symbols

/-- What the start symbol leads to stands in a form whose other symbols derive words. -/
theorem exists_form_of_mentions (nodup : g.nonterminals.Nodup)
    (path : ReflTransGen g.Mentions start name) :
    ∃ before after, (g.contextFree start).Derives [.nonterminal start]
        ((before ++ .nonterminal name :: after).map Symbol.general) ∧
      (∃ u, g.Derives before u) ∧ ∃ v, g.Derives after v := by
  induction path with
  | refl => exact ⟨[], [], .refl _, ⟨[], .nil⟩, [], .nil⟩
  | @tail a b _ mentions ih =>
    obtain ⟨before, after, form, ⟨u, left⟩, v, right⟩ := ih
    obtain ⟨body, stays, named⟩ := mentions
    obtain ⟨rule, word, derives⟩ := (mem_bodies_prune_iff nodup).1 stays
    obtain ⟨first, last, parts⟩ := List.append_of_mem (nonterminal_mem_symbols.2 named)
    rw [parts] at derives
    obtain ⟨x, tail, -, opening, later⟩ := derives.split
    obtain ⟨own, y, -, -, closing⟩ := Derives.split (a := [.nonterminal b]) later
    refine ⟨before ++ first, last ++ after, form.trans_produces ?_, ⟨_, left.append opening⟩, _,
      closing.append right⟩
    have step := ContextFreeRule.rewrites_of_exists_parts (Production.general ⟨a, body⟩)
      (before.map Symbol.general) (after.map Symbol.general)
    refine ⟨_, (mem_rules_contextFree nodup).2 ⟨a, body, rule, rfl⟩, ?_⟩
    simpa [Production.general, Symbol.general, parts] using step

/-- Between the start symbol and a word, there is only what the start symbol leads to. -/
theorem mentions_of_form (nodup : g.nonterminals.Nodup)
    {form : List (ContextFreeRule.Item τ Ident)} {word : List τ}
    (path : (g.contextFree start).Derives [.nonterminal start] form)
    (derives : g.Derives (form.map Symbol.special) word) :
    g.Derives [.nonterminal start] word ∧
      ∀ name, .nonterminal name ∈ form → ReflTransGen g.Mentions start name := by
  induction path with
  | refl =>
    refine ⟨derives, fun name mem => ?_⟩
    cases List.mem_singleton.1 mem
    exact .refl
  | tail _ step ih =>
    obtain ⟨whole, known⟩ := ih (derives_of_rewrites nodup step derives)
    refine ⟨whole, fun name mem => ?_⟩
    obtain ⟨rule, inside, rewrites⟩ := step
    obtain ⟨a, body, rule, rfl⟩ := (mem_rules_contextFree nodup).1 inside
    obtain ⟨p, q, rfl, rfl⟩ := rewrites.exists_parts
    rcases List.mem_append.1 mem with mem | after
    · rcases List.mem_append.1 mem with before | replaced
      · exact known name (List.mem_append_left _ (List.mem_append_left _ before))
      · have here : ReflTransGen g.Mentions start a :=
          known a (List.mem_append_left _ (List.mem_append_right _ List.mem_cons_self))
        have named : name ∈ body.nonterminals := by
          obtain ⟨symbol, mem, same⟩ := List.mem_map.1 replaced
          cases symbol with
          | terminal t => cases same
          | nonterminal other =>
            cases same
            exact nonterminal_mem_symbols.1 mem
        have parts : (p ++ (Production.general ⟨a, body⟩).output ++ q).map Symbol.special =
            p.map Symbol.special ++ (body.symbols ++ q.map Symbol.special) := by
          simp [Production.general, Function.comp_def]
        rw [parts] at derives
        obtain ⟨-, v, -, -, later⟩ := derives.split
        exact here.tail ⟨body, mem_bodies_prune nodup rule later, named⟩
    · exact known name (List.mem_append_right _ after)

/-- Symbols serve in the place of a nonterminal if the start symbol leads to it, and they derive a
word. -/
theorem serves_iff (nodup : g.nonterminals.Nodup) (begins : g.start = some start)
    (own : ∀ word, g.Derives symbols word → g.Derives [.nonterminal name] word) :
    g.Serves name symbols ↔
      start ∈ g.yields.productive ∧ name ∈ g.prune.reachable ∧ ∃ word, g.Derives symbols word := by
  constructor
  · rintro ⟨first, before, after, word, found, form, rest⟩
    cases begins.symm.trans found
    have derives := derives_of_contextFree nodup rest
    have parts : (before ++ symbols.map Symbol.general ++ after).map Symbol.special =
        before.map Symbol.special ++ (symbols ++ after.map Symbol.special) := by
      simp [Function.comp_def]
    rw [parts] at derives
    obtain ⟨u, v, -, left, derives⟩ := derives.split
    obtain ⟨middle, v, -, inner, right⟩ := derives.split
    have whole : g.Derives ((before ++ [Symbol.general (.nonterminal name)] ++ after).map
        Symbol.special) (u ++ (middle ++ v)) := by
      rw [List.map_append, List.map_append, List.append_assoc]
      exact left.append ((own middle inner).append right)
    obtain ⟨derives, known⟩ := mentions_of_form nodup form whole
    have productive := (g.mem_productive nodup).2 ⟨_, derives⟩
    refine ⟨productive, (mem_reachable_prune nodup begins productive).2 ?_, _, inner⟩
    exact known name (by simp)
  · rintro ⟨productive, reached, middle, inner⟩
    obtain ⟨before, after, form, ⟨u, left⟩, v, right⟩ :=
      exists_form_of_mentions nodup ((mem_reachable_prune nodup begins productive).1 reached)
    refine ⟨start, before.map Symbol.general, after.map Symbol.general, u ++ (middle ++ v), begins,
      ?_, ?_⟩
    · simpa [Symbol.general] using form
    · have whole : (g.contextFree start).Derives _ _ :=
        (left.append (inner.append right)).contextFree nodup
      simpa using whole

end Forms

/-! ## What is left -/

/-- A grammar in which everything is useful is not changed. -/
theorem trimmed_eq_self (wellFormed : g.WellFormed) (begins : g.start = some start)
    (known : start ∈ g.nonterminals)
    (productive : ∀ name ∈ g.nonterminals, name ∈ g.yields.productive)
    (reachable : ∀ name ∈ g.nonterminals, name ∈ g.reachable) : g.trimmed = g := by
  have kept : ∀ rule ∈ g.rules, rule.2.filter g.keeps = rule.2 := by
    intro rule mem
    refine List.filter_eq_self.2 fun body inside => List.all_eq_true.2 fun other named => ?_
    exact decide_eq_true (productive other (wellFormed.known rule mem body inside other named))
  have pruned : g.prune = g := by
    have names : g.rules.filter (fun rule => rule.1 ∈ g.yields.productive) = g.rules :=
      List.filter_eq_self.2 fun rule mem =>
        decide_eq_true (productive rule.1 (List.mem_map_of_mem mem))
    rw [prune, names, List.map_congr_left (g := id) fun rule mem => by simp [kept rule mem],
      List.map_id]
  rw [trimmed_of_productive begins (productive start known), pruned]
  have names : g.rules.filter (fun rule => rule.1 ∈ g.reachable) = g.rules :=
    List.filter_eq_self.2 fun rule mem =>
      decide_eq_true (reachable rule.1 (List.mem_map_of_mem mem))
  rw [names]

section Left
variable (nodup : g.nonterminals.Nodup) (begins : g.start = some start)
include nodup begins

theorem productive_of_reached (productive : start ∈ g.yields.productive)
    (reached : name ∈ g.prune.reachable) : name ∈ g.yields.productive := by
  cases (mem_reachable_prune nodup begins productive).1 reached with
  | refl => exact productive
  | tail _ mentions =>
    obtain ⟨body, stays, named⟩ := mentions
    exact (mem_nonterminals_prune_iff nodup).1 ((wellFormed_prune nodup).known_of_body stays named)

theorem mem_nonterminals_trimmed :
    name ∈ g.trimmed.nonterminals ↔ start ∈ g.yields.productive ∧ name ∈ g.prune.reachable := by
  by_cases productive : start ∈ g.yields.productive
  · rw [and_iff_right productive, trimmed_of_productive begins productive]
    constructor
    · intro mem
      obtain ⟨rule, kept, rfl⟩ := List.mem_map.1 mem
      exact of_decide_eq_true (List.mem_filter.1 kept).2
    · intro reached
      have own := productive_of_reached nodup begins productive reached
      obtain ⟨rule, entry, rfl⟩ := List.mem_map.1 (mem_nonterminals_prune nodup own)
      exact List.mem_map_of_mem (List.mem_filter.2 ⟨entry, decide_eq_true reached⟩)
  · rw [trimmed_of_not_productive begins productive]
    exact ⟨fun mem => absurd mem List.not_mem_nil, fun both => absurd both.1 productive⟩

theorem mem_bodies_trimmed {body : Body τ} : body ∈ g.trimmed.bodies name ↔
    start ∈ g.yields.productive ∧ name ∈ g.prune.reachable ∧ body ∈ g.bodies name ∧
      ∃ word, g.Derives body.symbols word := by
  by_cases productive : start ∈ g.yields.productive
  · rw [and_iff_right productive, bodies_trimmed begins productive, ← mem_bodies_prune_iff nodup]
    by_cases reached : name ∈ g.prune.reachable
    · rw [if_pos reached, and_iff_right reached]
    · rw [if_neg reached]
      exact ⟨fun mem => absurd mem List.not_mem_nil, fun both => absurd both.1 reached⟩
  · rw [trimmed_of_not_productive begins productive]
    exact ⟨fun mem => absurd mem List.not_mem_nil, fun both => absurd both.1 productive⟩

/-- The nonterminals that are left are the useful ones. -/
theorem mem_nonterminals_trimmed_iff_useful [DecidableEq τ] :
    name ∈ g.trimmed.nonterminals ↔ g.Useful name := by
  rw [mem_nonterminals_trimmed nodup begins, Useful, serves_iff nodup begins fun _ => id,
    ← g.mem_productive nodup]
  apply and_congr_right
  intro productive
  exact (and_iff_left_of_imp (productive_of_reached nodup begins productive)).symm

/-- The productions that are left are the useful ones. -/
theorem mem_allProductions_trimmed_iff_useful [DecidableEq τ] {p : Production τ} :
    p ∈ g.trimmed.allProductions ↔ g.UsefulProduction p := by
  rw [mem_allProductions (wellFormed_trimmed nodup).nodup, mem_bodies_trimmed nodup begins,
    UsefulProduction, mem_allProductions nodup]
  have serves (rule : p.body ∈ g.bodies p.lhs) : g.Serves p.lhs p.body.symbols ↔ _ :=
    serves_iff nodup begins fun word derives => .unfold rule (by rwa [List.append_nil])
  constructor
  · rintro ⟨productive, reached, rule, derives⟩
    exact ⟨rule, (serves rule).2 ⟨productive, reached, derives⟩⟩
  · rintro ⟨rule, used⟩
    obtain ⟨productive, reached, derives⟩ := (serves rule).1 used
    exact ⟨productive, reached, rule, derives⟩

omit nodup in
theorem start_trimmed (productive : start ∈ g.yields.productive) :
    g.trimmed.start = some start := by
  rw [trimmed_of_productive begins productive]
  exact begins

/-- Nonterminals that are left derive the same words as before. -/
theorem derives_trimmed_of_mem {word : List τ} (left : name ∈ g.trimmed.nonterminals) :
    g.trimmed.Derives [.nonterminal name] word ↔ g.Derives [.nonterminal name] word := by
  obtain ⟨productive, reached⟩ := (mem_nonterminals_trimmed nodup begins).1 left
  exact derives_trimmed_iff nodup begins productive reached

theorem start_mem_trimmed (productive : start ∈ g.yields.productive) :
    start ∈ g.trimmed.nonterminals := by
  refine (mem_nonterminals_trimmed nodup begins).2 ⟨productive, ?_⟩
  exact (mem_reachable_prune nodup begins productive).2 .refl

theorem productive_trimmed (left : name ∈ g.trimmed.nonterminals) :
    name ∈ g.trimmed.yields.productive := by
  obtain ⟨productive, reached⟩ := (mem_nonterminals_trimmed nodup begins).1 left
  have own := productive_of_reached nodup begins productive reached
  obtain ⟨word, derives⟩ := (g.mem_productive nodup).1 own
  exact (g.trimmed.mem_productive (wellFormed_trimmed nodup).nodup).2
    ⟨word, (derives_trimmed_of_mem nodup begins left).2 derives⟩

theorem reachable_trimmed (left : name ∈ g.trimmed.nonterminals) : name ∈ g.trimmed.reachable := by
  obtain ⟨productive, reached⟩ := (mem_nonterminals_trimmed nodup begins).1 left
  rw [mem_reachable_prune nodup begins productive] at reached
  rw [mem_reachable (wellFormed_trimmed nodup) (start_trimmed begins productive)
    (start_mem_trimmed nodup begins productive)]
  induction reached with
  | refl => exact .refl
  | @tail a b path mentions ih =>
    obtain ⟨body, stays, named⟩ := mentions
    have here := (mem_reachable_prune nodup begins productive).2 path
    have rule : body ∈ g.trimmed.bodies a := by
      rwa [bodies_trimmed begins productive, if_pos here]
    refine .tail (ih ?_) ⟨body, rule, named⟩
    exact (mem_nonterminals_trimmed nodup begins).2 ⟨productive, here⟩

/-- Whatever is left was useful, so it is left again. -/
theorem trimmed_trimmed : g.trimmed.trimmed = g.trimmed := by
  by_cases productive : start ∈ g.yields.productive
  · exact trimmed_eq_self (wellFormed_trimmed nodup) (start_trimmed begins productive)
      (start_mem_trimmed nodup begins productive) (fun _ => productive_trimmed nodup begins)
      fun _ => reachable_trimmed nodup begins
  · rw [trimmed_of_not_productive begins productive]
    rfl

end Left

end ZeroRun.Grammar
