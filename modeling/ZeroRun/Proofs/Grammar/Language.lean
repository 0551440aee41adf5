import Mathlib
import ZeroRun.Proofs.Grammar.Derivation

/-! The language of a grammar. Grammars that come from the construction operations have each
nonterminal once and mention no unknown one. What such a grammar derives from the left is what the
context-free grammar with the same productions derives in any order. -/

/-- The symbols of context-free rules. -/
abbrev ContextFreeRule.Item (T N : Type) := Symbol T N

namespace ZeroRun
variable {τ : Type}

/-! ## Grammars that come from construction -/

namespace Grammar
variable {g next : Grammar τ} {name : Ident} {body : Body τ}

/-- The grammars that the construction operations lead to. -/
inductive Built [DecidableEq τ] : Grammar τ → Prop where
  | empty (name : Ident) : Built { name }
  | nonterminal {g : Grammar τ} (name : Ident) (before : Built g) : Built (g.addNonterminal name)
  | production {g next : Grammar τ} (p : Production τ) (before : Built g)
      (added : g.addProduction p = .ok next) : Built next
  | start {g next : Grammar τ} (start : Option Ident) (before : Built g)
      (set : g.setStart start = .ok next) : Built next

/-- Each nonterminal is there once, and those in the right-hand sides are there. -/
structure WellFormed (g : Grammar τ) : Prop where
  nodup : g.nonterminals.Nodup
  known : ∀ rule ∈ g.rules, ∀ body ∈ rule.2, ∀ other ∈ body.nonterminals, other ∈ g.nonterminals

theorem WellFormed.known_of_body (wellFormed : g.WellFormed) (rule : body ∈ g.bodies name)
    {other : Ident} (mem : other ∈ body.nonterminals) : other ∈ g.nonterminals := by
  obtain ⟨bodies, rule, inside⟩ := exists_rule_of_body rule
  exact wellFormed.known _ rule body inside other mem

theorem WellFormed.addNonterminal (wellFormed : g.WellFormed) (name : Ident) :
    (g.addNonterminal name).WellFormed := by
  unfold Grammar.addNonterminal
  by_cases old : name ∈ g.nonterminals
  · rwa [if_pos old]
  · rw [if_neg old]
    have names : (g.rules ++ [(name, [])]).map Prod.fst = g.nonterminals ++ [name] := by
      rw [List.map_append]
      rfl
    constructor
    · rw [nonterminals, names]
      exact wellFormed.nodup.append (List.nodup_singleton name) (by simpa using old)
    · intro rule mem body inside other mentioned
      rw [nonterminals, names]
      rcases List.mem_append.1 mem with old | new
      · exact List.mem_append_left _ (wellFormed.known rule old body inside other mentioned)
      · rw [List.mem_singleton.1 new] at inside
        cases inside

theorem WellFormed.addProduction [DecidableEq τ] (wellFormed : g.WellFormed) {p : Production τ}
    (added : g.addProduction p = .ok next) : next.WellFormed := by
  unfold Grammar.addProduction at added
  split at added
  · cases added
  · rename_i unknown
    have names : ∀ other ∈ p.body.nonterminals, other ∈ g.nonterminals := by
      intro other mem
      simpa using List.find?_eq_none.1 unknown other (List.mem_cons_of_mem _ mem)
    cases added
    have same : (g.rules.map fun rule =>
        (rule.1, if rule.1 = p.lhs then rule.2 ++ [p.body] else rule.2)).map Prod.fst =
          g.nonterminals := by
      rw [List.map_map]
      rfl
    constructor
    · rw [nonterminals, same]
      exact wellFormed.nodup
    · intro rule mem body inside other mentioned
      rw [nonterminals, same]
      obtain ⟨before, old, rfl⟩ := List.mem_map.1 mem
      have inside : body ∈ before.2 ∨ body = p.body := by
        dsimp only at inside
        split at inside
        · simpa using inside
        · exact .inl inside
      rcases inside with inside | rfl
      · exact wellFormed.known before old body inside other mentioned
      · exact names other mentioned

theorem WellFormed.setStart (wellFormed : g.WellFormed) {start : Option Ident}
    (set : g.setStart start = .ok next) : next.WellFormed := by
  cases start with
  | none =>
    cases set
    exact ⟨wellFormed.nodup, wellFormed.known⟩
  | some name =>
    unfold Grammar.setStart at set
    dsimp only at set
    split at set <;> cases set
    exact ⟨wellFormed.nodup, wellFormed.known⟩

theorem Built.wellFormed [DecidableEq τ] (built : g.Built) : g.WellFormed := by
  induction built with
  | empty name => exact ⟨List.nodup_nil, nofun⟩
  | nonterminal name _ ih => exact ih.addNonterminal name
  | production p _ added ih => exact ih.addProduction added
  | start _ _ set ih => exact ih.setStart set

theorem mem_allProductions (nodup : g.nonterminals.Nodup) {p : Production τ} :
    p ∈ g.allProductions ↔ p.body ∈ g.bodies p.lhs := by
  constructor
  · intro mem
    obtain ⟨⟨name, bodies⟩, rule, made⟩ := List.mem_flatMap.1 mem
    obtain ⟨body, inside, rfl⟩ := List.mem_map.1 made
    rw [Grammar.bodies, (lookup_eq_some_iff nodup).2 rule]
    exact inside
  · intro mem
    obtain ⟨bodies, rule, inside⟩ := exists_rule_of_body mem
    exact List.mem_flatMap.2 ⟨_, rule, List.mem_map.2 ⟨_, inside, rfl⟩⟩

end Grammar

/-! ## Context-free rewriting -/

/-- The symbol in a context-free rule. -/
def Symbol.general : Symbol τ → ContextFreeRule.Item τ Ident
  | .terminal t => .terminal t
  | .nonterminal name => .nonterminal name

/-- The symbol of a derivation state. -/
def Symbol.special : ContextFreeRule.Item τ Ident → Symbol τ
  | .terminal t => .terminal t
  | .nonterminal name => .nonterminal name

@[simp]
theorem Symbol.special_general (symbol : Symbol τ) : special symbol.general = symbol := by
  cases symbol <;> rfl

/-- The production as a context-free rule. -/
def Production.general (p : Production τ) : ContextFreeRule τ Ident :=
  ⟨p.lhs, p.body.symbols.map Symbol.general⟩

namespace Grammar
variable [DecidableEq τ] {g : Grammar τ} {start : Ident} {state : DerivationState τ}
  {word : List τ}

/-- The context-free grammar with the same productions. -/
abbrev contextFree (g : Grammar τ) (start : Ident) : ContextFreeGrammar τ where
  NT := Ident
  initial := start
  rules := (g.allProductions.map Production.general).toFinset

/-- The word is one of the language. Without a start symbol there are none. -/
def Generates (g : Grammar τ) (word : List τ) : Prop :=
  ∃ start, g.start = some start ∧ word ∈ (g.contextFree start).language

theorem mem_rules_contextFree (nodup : g.nonterminals.Nodup) {rule : ContextFreeRule τ Ident} :
    rule ∈ (g.contextFree start).rules ↔
      ∃ name, ∃ body ∈ g.bodies name, rule = Production.general ⟨name, body⟩ := by
  simp only [contextFree, List.mem_toFinset, List.mem_map, mem_allProductions nodup]
  constructor
  · rintro ⟨p, mem, rfl⟩
    exact ⟨p.lhs, p.body, mem, rfl⟩
  · rintro ⟨name, body, mem, rfl⟩
    exact ⟨⟨name, body⟩, mem, rfl⟩

theorem Derives.contextFree (nodup : g.nonterminals.Nodup) (derives : g.Derives state word) :
    (g.contextFree start).Derives (state.map Symbol.general) (word.map .terminal) := by
  induction derives with
  | nil => exact .refl _
  | emit t _ ih => exact ih.append_left [.terminal t]
  | @unfold rest word name body rule _ ih =>
    refine .head ⟨_, (mem_rules_contextFree nodup).2 ⟨name, body, rule, rfl⟩, .head _⟩ ?_
    rw [List.map_append] at ih
    exact ih

omit [DecidableEq τ] in
theorem derives_terminals (word : List τ) : g.Derives (word.map .terminal) word := by
  induction word with
  | nil => exact .nil
  | cons t word ih => exact .emit t ih

/-- A rewriting step somewhere in the middle can be put off until its nonterminal is the
leftmost one. -/
theorem derives_of_rewrites (nodup : g.nonterminals.Nodup)
    {u v : List (ContextFreeRule.Item τ Ident)} (step : (g.contextFree start).Produces u v)
    (derives : g.Derives (v.map Symbol.special) word) : g.Derives (u.map Symbol.special) word := by
  obtain ⟨rule, mem, rewrites⟩ := step
  obtain ⟨name, body, inside, rfl⟩ := (mem_rules_contextFree nodup).1 mem
  obtain ⟨p, q, rfl, rfl⟩ := rewrites.exists_parts
  have parts : (p ++ (Production.general ⟨name, body⟩).output ++ q).map Symbol.special =
      p.map Symbol.special ++ (body.symbols ++ q.map Symbol.special) := by
    simp [Production.general, Function.comp_def]
  rw [parts] at derives
  obtain ⟨left, right, rfl, before, after⟩ := derives.split
  rw [List.map_append, List.map_append, List.append_assoc]
  exact before.append (.unfold inside after)

theorem derives_of_contextFree (nodup : g.nonterminals.Nodup)
    {u : List (ContextFreeRule.Item τ Ident)}
    (derives : (g.contextFree start).Derives u (word.map .terminal)) :
    g.Derives (u.map Symbol.special) word := by
  induction derives using Relation.ReflTransGen.head_induction_on with
  | refl =>
    rw [List.map_map]
    exact derives_terminals word
  | head step _ ih => exact derives_of_rewrites nodup step ih

/-- The words of the language are those that the start symbol derives from the left. -/
theorem mem_language (nodup : g.nonterminals.Nodup) :
    word ∈ (g.contextFree start).language ↔ g.Derives [.nonterminal start] word := by
  constructor
  · intro generated
    exact derives_of_contextFree nodup generated
  · intro derives
    exact derives.contextFree nodup

theorem generates_iff (nodup : g.nonterminals.Nodup) :
    g.Generates word ↔ ∃ start, g.start = some start ∧ g.Derives [.nonterminal start] word :=
  exists_congr fun _ => and_congr_right fun _ => mem_language nodup

/-! ## A grammar of brackets -/

/-- Sequences of letters and of sequences in brackets. -/
def brackets : Grammar Char where
  name := .int 0
  rules := [(.int 0, [.concat (.int 1) (.int 0), .epsilon]),
    (.int 1, [.excursion '(' (.int 0) ')', .edge 'a' none])]
  terminals := ['(', ')', 'a']
  start := some (.int 0)

theorem built_brackets : brackets.Built := by
  have names := (Built.empty (τ := Char) (.int 0)).nonterminal (.int 0) |>.nonterminal (.int 1)
  have sequences := (names.production ⟨.int 0, .concat (.int 1) (.int 0)⟩ rfl).production
    ⟨.int 0, .epsilon⟩ rfl
  have items := (sequences.production ⟨.int 1, .excursion '(' (.int 0) ')'⟩ rfl).production
    ⟨.int 1, .edge 'a' none⟩ rfl
  exact items.start (some (.int 0)) rfl

end Grammar
end ZeroRun
