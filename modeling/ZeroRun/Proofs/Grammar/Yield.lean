import Mathlib
import ZeroRun.Grammar.Trim
import ZeroRun.Proofs.Grammar.Derivation

/-! The yield of a nonterminal is the length of a shortest word that it derives, and infinite if it
derives none. This is said of the words alone, whatever way the lengths are found. A table of
lengths gives each derivation state the sum of the lengths of its symbols, and if the finite lengths
of the table are those of words, then so are these sums. -/
namespace ZeroRun

namespace Length

/-- The sum of two lengths. -/
def add : Length → Length → Length
  | some m, some n => some (m + n)
  | _, _ => none

/-- The sum of several lengths. -/
def sum (ls : List Length) : Length :=
  ls.foldr add (some 0)

/-- A length as a number that may be infinite. -/
def value : Length → ℕ∞
  | some n => n
  | none => ⊤

@[simp]
theorem value_some (n : Nat) : value (some n) = n := rfl

@[simp]
theorem value_none : value none = ⊤ := rfl

theorem add_eq_some_iff {a b : Length} {m : Nat} :
    add a b = some m ↔ ∃ p q, a = some p ∧ b = some q ∧ p + q = m := by
  cases a <;> cases b <;> simp [add]

@[simp]
theorem value_add (a b : Length) : (add a b).value = a.value + b.value := by
  cases a <;> cases b <;> simp [add]

@[simp]
theorem value_sum (ls : List Length) : (sum ls).value = (ls.map value).sum := by
  induction ls with
  | nil => simp [sum]
  | cons l ls ih =>
    rw [List.map_cons, List.sum_cons, ← ih, ← value_add]
    rfl

end Length

namespace Grammar
variable {τ : Type} {g : Grammar τ} {name : Ident} {state : DerivationState τ}

/-! ## Tables of lengths -/

/-- The sum of the lengths of the symbols of a derivation state. -/
def stateYield (table : Yields) (state : DerivationState τ) : Length :=
  Length.sum (state.map fun
    | .terminal _ => some 1
    | .nonterminal name => table.of name)

/-- Every finite length of the table is the length of a word. -/
def Realised (g : Grammar τ) (table : Yields) : Prop :=
  ∀ name m, table.of name = some m → ∃ word, g.Derives [.nonterminal name] word ∧ word.length = m

theorem Realised.exists_derives {table : Yields} (realised : g.Realised table) {m : Nat}
    (least : stateYield table state = some m) : ∃ word, g.Derives state word ∧ word.length = m := by
  induction state generalizing m with
  | nil =>
    cases least
    exact ⟨[], .nil, rfl⟩
  | cons symbol state ih =>
    obtain ⟨own, n, first, tail, rfl⟩ := Length.add_eq_some_iff.1 least
    obtain ⟨v, right, rfl⟩ := ih tail
    obtain ⟨u, left, rfl⟩ : ∃ u, g.Derives [symbol] u ∧ u.length = own := by
      cases symbol with
      | terminal t =>
        cases first
        exact ⟨[t], .emit t .nil, rfl⟩
      | nonterminal name => exact realised name own first
    exact ⟨u ++ v, left.append right, List.length_append⟩

/-- The names whose length is of some kind, which infinity is not. -/
theorem mem_names_of_kind {table : Yields} (nodup : (table.map Prod.fst).Nodup)
    (kind : Length → Bool) (finite : kind none = false) :
    name ∈ (table.filter fun entry => kind entry.2).map Prod.fst ↔ kind (table.of name) = true := by
  constructor
  · intro mem
    obtain ⟨⟨key, l⟩, entry, rfl⟩ := List.mem_map.1 mem
    obtain ⟨entry, found⟩ := List.mem_filter.1 entry
    rw [Yields.of, (lookup_eq_some_iff nodup).2 entry]
    exact found
  · intro found
    rw [Yields.of] at found
    cases entry : List.lookup name table with
    | none => simp [entry, finite] at found
    | some l =>
      rw [entry] at found
      exact List.mem_map.2
        ⟨(name, l), List.mem_filter.2 ⟨mem_of_lookup_eq_some entry, found⟩, rfl⟩

/-! ## Shortest words -/

/-- The length of a shortest word of a state, which is infinite if there is no word. -/
def IsShortest (g : Grammar τ) (state : DerivationState τ) : Length → Prop
  | some m => (∃ word, g.Derives state word ∧ word.length = m) ∧
      ∀ word, g.Derives state word → m ≤ word.length
  | none => ∀ word, ¬ g.Derives state word

theorem IsShortest.unique {a b : Length} (first : g.IsShortest state a)
    (second : g.IsShortest state b) : a = b := by
  rcases a with _ | m <;> rcases b with _ | n
  · rfl
  · obtain ⟨⟨word, derives, -⟩, -⟩ := second
    exact absurd derives (first word)
  · obtain ⟨⟨word, derives, -⟩, -⟩ := first
    exact absurd derives (second word)
  · obtain ⟨⟨u, derivesU, rfl⟩, leastU⟩ := first
    obtain ⟨⟨v, derivesV, rfl⟩, leastV⟩ := second
    exact congrArg some (Nat.le_antisymm (leastU v derivesV) (leastV u derivesU))

theorem exists_isShortest (g : Grammar τ) (state : DerivationState τ) :
    ∃ length, g.IsShortest state length := by
  classical
  by_cases derivable : ∃ n word, g.Derives state word ∧ word.length = n
  · refine ⟨some (Nat.find derivable), Nat.find_spec derivable, fun word derives => ?_⟩
    exact Nat.find_min' derivable ⟨word, derives, rfl⟩
  · exact ⟨none, fun word derives => derivable ⟨word.length, word, derives, rfl⟩⟩

/-- The yield of each nonterminal. -/
noncomputable def yields (g : Grammar τ) : Yields :=
  g.nonterminals.map fun name => (name, (g.exists_isShortest [.nonterminal name]).choose)

@[simp]
theorem keys_yields (g : Grammar τ) : g.yields.map Prod.fst = g.nonterminals := by
  simp [yields, Function.comp_def]

theorem lookup_map_pair (names : List Ident) (value : Ident → Length) (name : Ident) :
    (names.map fun key => (key, value key)).lookup name =
      if name ∈ names then some (value name) else none := by
  induction names with
  | nil => rfl
  | cons key names ih =>
    rw [List.map_cons, List.lookup_cons, ih]
    by_cases same : name = key
    · simp [same]
    · simp [same, beq_false_of_ne same]

theorem isShortest_yields (g : Grammar τ) (name : Ident) :
    g.IsShortest [.nonterminal name] (g.yields.of name) := by
  rw [Yields.of, yields, lookup_map_pair]
  split
  · exact (g.exists_isShortest [.nonterminal name]).choose_spec
  · rename_i unknown
    intro word derives
    cases derives with
    | unfold rule =>
      obtain ⟨bodies, rule, -⟩ := exists_rule_of_body rule
      exact unknown (List.mem_map_of_mem rule)

/-- A nonterminal that derives a word has a yield, and it is no longer than the word. -/
theorem exists_yields_of_derives {word : List τ} (derives : g.Derives [.nonterminal name] word) :
    ∃ m, g.yields.of name = some m ∧ m ≤ word.length := by
  have shortest := g.isShortest_yields name
  cases least : g.yields.of name with
  | none =>
    rw [least] at shortest
    exact absurd derives (shortest word)
  | some m =>
    rw [least] at shortest
    exact ⟨m, rfl, shortest.2 word derives⟩

/-- A yield is the length of a word. -/
theorem realised_yields (g : Grammar τ) : g.Realised g.yields := by
  intro name m least
  have shortest := g.isShortest_yields name
  rw [least] at shortest
  exact shortest.1

theorem isSome_yields_of (g : Grammar τ) {name : Ident} :
    (g.yields.of name).isSome ↔ ∃ word, g.Derives [.nonterminal name] word := by
  constructor
  · intro found
    obtain ⟨m, least⟩ := Option.isSome_iff_exists.1 found
    obtain ⟨word, derives, -⟩ := g.realised_yields name m least
    exact ⟨word, derives⟩
  · rintro ⟨word, derives⟩
    obtain ⟨m, least, -⟩ := exists_yields_of_derives derives
    simp [least]

/-- The productive nonterminals are those that derive a word. -/
theorem mem_productive (g : Grammar τ) (nodup : g.nonterminals.Nodup) {name : Ident} :
    name ∈ g.yields.productive ↔ ∃ word, g.Derives [.nonterminal name] word := by
  rw [← isSome_yields_of]
  exact mem_names_of_kind (by rwa [keys_yields]) Option.isSome rfl

/-- The nullable nonterminals are those that derive the empty word. -/
theorem mem_nullable (g : Grammar τ) (nodup : g.nonterminals.Nodup) {name : Ident} :
    name ∈ g.yields.nullable ↔ g.Derives [.nonterminal name] [] := by
  have kind : name ∈ g.yields.nullable ↔ decide (g.yields.of name = some 0) = true :=
    mem_names_of_kind (by rwa [keys_yields]) (fun l => decide (l = some 0)) rfl
  rw [kind, decide_eq_true_iff]
  constructor
  · intro least
    obtain ⟨word, derives, length⟩ := g.realised_yields name 0 least
    rwa [List.eq_nil_of_length_eq_zero length] at derives
  · intro derives
    obtain ⟨m, least, short⟩ := exists_yields_of_derives derives
    rw [least, Nat.le_zero.1 short]

/-! ## Yields of derivation states -/

variable {word : List τ}

/-- The yield of a state is at most the length of each of its words. -/
theorem exists_stateYield_of_derives (derives : g.Derives state word) :
    ∃ m, stateYield g.yields state = some m ∧ m ≤ word.length := by
  induction state generalizing word with
  | nil => exact ⟨0, rfl, Nat.zero_le _⟩
  | cons symbol state ih =>
    have derives : g.Derives ([symbol] ++ state) word := derives
    obtain ⟨u, v, rfl, left, right⟩ := derives.split
    obtain ⟨n, tail, short⟩ := ih right
    rw [List.length_append]
    cases symbol with
    | terminal t =>
      cases left with
      | emit _ left =>
        refine ⟨1 + n, congrArg (Length.add (some 1)) tail, ?_⟩
        rw [List.length_cons]
        omega
    | nonterminal name =>
      obtain ⟨m, head, least⟩ := exists_yields_of_derives left
      exact ⟨m + n, congrArg₂ Length.add head tail, Nat.add_le_add least short⟩

/-- The yield of a state is the length of one of its words. -/
theorem exists_derives_of_stateYield {m : Nat} (least : stateYield g.yields state = some m) :
    ∃ word, g.Derives state word ∧ word.length = m :=
  g.realised_yields.exists_derives least

/-- The yield of a state is the length of its shortest words. -/
theorem stateYield_eq_some_iff {m : Nat} :
    stateYield g.yields state = some m ↔
      (∃ word, g.Derives state word ∧ word.length = m) ∧
        ∀ word, g.Derives state word → m ≤ word.length := by
  constructor
  · intro least
    refine ⟨exists_derives_of_stateYield least, fun word derives => ?_⟩
    obtain ⟨n, same, short⟩ := exists_stateYield_of_derives derives
    rw [least] at same
    cases same
    exact short
  · rintro ⟨⟨word, derives, rfl⟩, least⟩
    obtain ⟨n, found, short⟩ := exists_stateYield_of_derives derives
    obtain ⟨shortest, derives, rfl⟩ := exists_derives_of_stateYield found
    rw [found, Nat.le_antisymm short (least shortest derives)]

end Grammar
end ZeroRun
