import Mathlib
import ZeroRun.Proofs.Grammar.Language
import ZeroRun.Proofs.Grammar.Sum

/-! Shortest words in sweeps. Every finite length of a table is the length of a word, and a table
that a sweep leaves as it is cannot be improved by any derivation, so its lengths are those of
shortest words.

Each new finite length is at most twice the largest one before it, up to the first few. So a
length can be too large to be added to an infinite one only if there are more than a thousand
nonterminals. -/
namespace ZeroRun.Grammar

open Binary64 (overflowBound)

variable {τ : Type} {g : Grammar τ}

/-! ## Tables -/

namespace Yields

theorem keys_set (name : Ident) (length : Length) (table : Yields) :
    (set name length table).map Prod.fst = table.map Prod.fst := by
  induction table with
  | nil => rfl
  | cons entry table ih =>
    obtain ⟨key, old⟩ := entry
    rw [set]
    split
    · rfl
    · rw [List.map_cons, List.map_cons, ih]

theorem of_set {name : Ident} {table : Yields} (mem : name ∈ table.map Prod.fst) (length : Length)
    (other : Ident) :
    of (set name length table) other = if other = name then length else of table other := by
  induction table with
  | nil => cases mem
  | cons entry table ih =>
    obtain ⟨key, old⟩ := entry
    rw [set]
    split
    · rename_i same
      subst same
      rw [of_cons, of_cons]
      split <;> rfl
    · rename_i apart
      rw [List.map_cons, List.mem_cons] at mem
      rw [of_cons, of_cons, ih (mem.resolve_left apart)]
      split
      · rename_i same
        rw [if_neg]
        rintro rfl
        exact apart same
      · rfl

theorem of_eq_none {name : Ident} {table : Yields} (absent : name ∉ table.map Prod.fst) :
    of table name = none := by
  cases entry : List.lookup name table with
  | none => rw [of, entry, Option.getD_none]
  | some l => exact absurd (List.mem_map_of_mem (mem_of_lookup_eq_some entry)) absent

/-- Tables with the same names are equal if they have the same lengths. -/
theorem eq_of_forall_of {a b : Yields} (keys : a.map Prod.fst = b.map Prod.fst)
    (nodup : (a.map Prod.fst).Nodup) (same : ∀ name, of a name = of b name) : a = b := by
  induction a generalizing b with
  | nil => exact (List.map_eq_nil_iff.1 keys.symm).symm
  | cons entry a ih =>
    obtain ⟨key, l⟩ := entry
    cases b with
    | nil => cases keys
    | cons other b =>
      obtain ⟨key', l'⟩ := other
      obtain ⟨rfl, rest⟩ := List.cons.inj keys
      obtain ⟨absent, nodup⟩ := List.nodup_cons.1 nodup
      have first := same key
      rw [of_cons, of_cons, if_pos rfl, if_pos rfl] at first
      rw [first, ih rest nodup fun name => ?_]
      by_cases equal : name = key
      · rw [equal, of_eq_none absent, of_eq_none (rest ▸ absent)]
      · have later := same name
        rwa [of_cons, of_cons, if_neg equal, if_neg equal] at later

/-- The number of finite lengths. -/
def finites (table : Yields) : Nat :=
  table.countP fun entry => entry.2.isSome

theorem finites_le (table : Yields) : table.finites ≤ table.length :=
  List.countP_le_length

theorem finites_set {name : Ident} {table : Yields} (mem : name ∈ table.map Prod.fst) (n : Nat) :
    finites (set name (some n) table) + (if (of table name).isSome then 1 else 0) =
      finites table + 1 := by
  induction table with
  | nil => cases mem
  | cons entry table ih =>
    obtain ⟨key, old⟩ := entry
    rw [set, of_cons]
    split
    · cases old <;> simp [finites]
    · rename_i apart
      rw [List.map_cons, List.mem_cons] at mem
      have rest := ih (mem.resolve_left apart)
      simp only [finites, List.countP_cons] at rest ⊢
      omega

theorem finites_pos {name : Ident} {table : Yields} {m : Nat} (finite : of table name = some m) :
    0 < table.finites := by
  unfold of at finite
  cases entry : List.lookup name table with
  | none => simp [entry] at finite
  | some l =>
    rw [entry] at finite
    exact List.countP_pos_iff.2 ⟨_, mem_of_lookup_eq_some entry, by simp_all⟩

theorem finites_lt {name : Ident} {table : Yields} (mem : name ∈ table.map Prod.fst)
    (infinite : of table name = none) : table.finites < table.length := by
  have more := finites_set mem 0
  have most := finites_le (set name (some 0) table)
  have same := congrArg List.length (keys_set name (some 0) table)
  simp only [List.length_map] at same
  simp [infinite] at more
  omega

end Yields

/-! ## Sweeps -/

/-- What holds of the table at every moment: it has a length for each nonterminal, the finite ones
are lengths of words, and they do not grow faster than by doubling. -/
structure Approximates (g : Grammar τ) (table : Yields) : Prop where
  keys : table.map Prod.fst = g.nonterminals
  realised : g.Realised table
  bounded : ∀ name m, table.of name = some m → 4 * m ≤ 3 * 2 ^ table.finites

theorem of_map_none (names : List Ident) (name : Ident) :
    Yields.of (names.map fun name => (name, none)) name = none := by
  induction names with
  | nil => rfl
  | cons key names ih => rw [List.map_cons, Yields.of_cons, ih, ite_self]

theorem approximates_start (g : Grammar τ) :
    g.Approximates (g.nonterminals.map fun name => (name, none)) where
  keys := by simp [Function.comp_def]
  realised name m found := by simp [of_map_none] at found
  bounded name m found := by simp [of_map_none] at found

/-- A right-hand side is at most twice as long as what it consists of, up to the first few. -/
theorem Approximates.bounded_symbols {table : Yields} (approximates : g.Approximates table)
    {body : Body τ} {m : Nat} (found : stateYield table body.symbols = some m) :
    4 * m ≤ 3 * 2 ^ (table.finites + 1) := by
  have unit : 1 ≤ 2 ^ table.finites := Nat.one_le_two_pow
  have powers : 0 < table.finites → 2 ^ table.finites = 2 ∨ 4 ≤ 2 ^ table.finites := by
    intro positive
    rcases Nat.lt_or_ge table.finites 2 with one | more
    · exact .inl (by rw [show table.finites = 1 by omega, Nat.pow_one])
    · exact .inr (Nat.pow_le_pow_right Nat.two_pos more)
  rw [stateYield_symbols] at found
  obtain ⟨count, n, terminals, inner, rfl⟩ := Length.add_eq_some_iff.1 found
  cases terminals
  rw [Nat.pow_succ]
  cases body with
  | edge t next =>
    cases next with
    | none =>
      cases inner
      simp only [Body.terminals, List.length_singleton]
      omega
    | some next =>
      have inner : table.of next = some n := (Length.sum_singleton _).symm.trans inner
      have bound := approximates.bounded next n inner
      have power := powers (Yields.finites_pos inner)
      simp only [Body.terminals, List.length_singleton]
      omega
  | excursion opening name closing =>
    have inner : table.of name = some n := (Length.sum_singleton _).symm.trans inner
    have bound := approximates.bounded name n inner
    have power := powers (Yields.finites_pos inner)
    simp only [Body.terminals, List.length_cons, List.length_nil]
    omega
  | concat left right =>
    have inner : Length.add (table.of left) (table.of right) = some n :=
      (Length.sum_pair _ _).symm.trans inner
    obtain ⟨a, b, first, second, rfl⟩ := Length.add_eq_some_iff.1 inner
    have first := approximates.bounded left a first
    have second := approximates.bounded right b second
    simp only [Body.terminals, List.length_nil]
    omega
  | epsilon =>
    cases inner
    simp only [Body.terminals, List.length_nil]
    omega

theorem shorten_cases {table next : Yields} {p : Production τ} (done : shorten table p = .ok next) :
    (next = table ∧ Length.isLess (stateYield table p.body.symbols) (table.of p.lhs) = false) ∨
      ∃ n, stateYield table p.body.symbols = some n ∧ Length.isLess (some n) (table.of p.lhs) ∧
        next = table.set p.lhs (some n) := by
  unfold shorten at done
  rcases measure_cases table p.body with fits | ⟨fails, -⟩
  · rw [fits] at done
    cases less : Length.isLess (stateYield table p.body.symbols) (table.of p.lhs) with
    | false =>
      simp only [bind, Except.bind, pure, Except.pure, less, Except.ok.injEq] at done
      exact .inl ⟨done.symm, rfl⟩
    | true =>
      simp only [bind, Except.bind, pure, Except.pure, less, if_true, Except.ok.injEq] at done
      cases value : stateYield table p.body.symbols with
      | none => simp [value, Length.isLess] at less
      | some n => exact .inr ⟨n, rfl, value ▸ less, by rw [← done, value]⟩
  · rw [fails] at done
    cases done

theorem lhs_mem_nonterminals {p : Production τ} (mem : p ∈ g.allProductions) :
    p.lhs ∈ g.nonterminals := by
  obtain ⟨⟨name, bodies⟩, rule, made⟩ := List.mem_flatMap.1 mem
  obtain ⟨body, -, rfl⟩ := List.mem_map.1 made
  exact List.mem_map_of_mem rule

theorem Approximates.after_shorten {table next : Yields} {p : Production τ}
    (approximates : g.Approximates table) (nodup : g.nonterminals.Nodup)
    (mem : p ∈ g.allProductions) (done : shorten table p = .ok next) : g.Approximates next := by
  rcases shorten_cases done with ⟨rfl, -⟩ | ⟨n, found, less, rfl⟩
  · exact approximates
  have known : p.lhs ∈ table.map Prod.fst := by
    rw [approximates.keys]
    exact lhs_mem_nonterminals mem
  constructor
  · rw [Yields.keys_set, approximates.keys]
  · intro name m value
    rw [Yields.of_set known] at value
    split at value
    · rename_i same
      cases value
      subst same
      obtain ⟨word, derives, length⟩ := approximates.realised.exists_derives found
      exact ⟨word, .unfold ((mem_allProductions nodup).1 mem) (by simpa using derives), length⟩
    · exact approximates.realised name m value
  · intro name m value
    have count := Yields.finites_set known n
    have bound := approximates.bounded_symbols found
    rw [Yields.of_set known] at value
    cases old : table.of p.lhs with
    | none =>
      simp only [old, Option.isSome_none, Bool.false_eq_true, if_false, Nat.add_zero] at count
      rw [count]
      split at value
      · cases value
        exact bound
      · have before := approximates.bounded name m value
        rw [Nat.pow_succ]
        omega
    | some longer =>
      simp only [old, Option.isSome_some, if_true, Nat.add_right_cancel_iff] at count
      rw [count]
      split at value
      · cases value
        have before := approximates.bounded p.lhs longer old
        simp only [old, Length.isLess, decide_eq_true_eq] at less
        omega
      · exact approximates.bounded name m value

theorem Approximates.after_sweep {table next : Yields} {ps : List (Production τ)}
    (approximates : g.Approximates table) (nodup : g.nonterminals.Nodup)
    (inside : ∀ p ∈ ps, p ∈ g.allProductions) (done : sweep ps table = .ok next) :
    g.Approximates next := by
  induction ps generalizing table with
  | nil =>
    cases done
    exact approximates
  | cons p ps ih =>
    obtain ⟨between, first, rest⟩ := sweep_cons_eq_ok.1 done
    obtain ⟨here, later⟩ := List.forall_mem_cons.1 inside
    exact ih (approximates.after_shorten nodup here first) later rest

/-- A sweep fails only if the parts of a concatenation cannot be added. -/
theorem Approximates.clash_of_sweep {table : Yields} {ps : List (Production τ)} {e : Error}
    (approximates : g.Approximates table) (nodup : g.nonterminals.Nodup)
    (inside : ∀ p ∈ ps, p ∈ g.allProductions) (fails : sweep ps table = .error e) :
    e = .conversion .decimalTooLarge ∧
      ∃ meanwhile, g.Approximates meanwhile ∧ ∃ name left right,
        Body.concat left right ∈ g.bodies name ∧
          Length.Clash (meanwhile.of left) (meanwhile.of right) := by
  induction ps generalizing table with
  | nil => cases fails
  | cons p ps ih =>
    obtain ⟨here, later⟩ := List.forall_mem_cons.1 inside
    rw [sweep, List.foldlM_cons] at fails
    cases first : shorten table p with
    | ok between =>
      rw [first] at fails
      exact ih (approximates.after_shorten nodup here first) later fails
    | error cause =>
      rw [first] at fails
      cases fails
      rw [shorten] at first
      rcases measure_cases table p.body with fits | ⟨failed, left, right, body, clash⟩
      · rw [fits] at first
        cases first
      · rw [failed] at first
        cases first
        refine ⟨rfl, table, approximates, p.lhs, left, right, ?_, clash⟩
        rw [← body]
        exact (mem_allProductions nodup).1 here

/-- Lengths that are too large need more than a thousand nonterminals. -/
theorem Approximates.lt_length_of_clash {table : Yields} (approximates : g.Approximates table)
    {left right : Ident} (known : left ∈ g.nonterminals ∧ right ∈ g.nonterminals)
    (clash : Length.Clash (table.of left) (table.of right)) : 1025 < g.nonterminals.length := by
  have width : table.length = g.nonterminals.length := by
    rw [← approximates.keys, List.length_map]
  rw [← approximates.keys] at known
  obtain ⟨n, large, finite, infinite, mem, value, none⟩ : ∃ n, overflowBound ≤ n ∧
      ∃ finite infinite, infinite ∈ table.map Prod.fst ∧ table.of finite = some n ∧
        table.of infinite = none := by
    obtain ⟨n, large, ⟨value, none⟩ | ⟨none, value⟩⟩ := clash
    · exact ⟨n, large, left, right, known.2, value, none⟩
    · exact ⟨n, large, right, left, known.1, value, none⟩
  have bound := approximates.bounded finite n value
  have fewer := Yields.finites_lt mem none
  by_contra few
  have power := Nat.pow_le_pow_right Nat.two_pos (show table.finites ≤ 1024 by omega)
  have top : 2 ^ 1024 = 2 ^ 54 * 2 ^ 970 := by rw [← Nat.pow_add]
  have unit : 0 < 2 ^ 970 := by positivity
  rw [Binary64.overflowBound_eq] at large
  omega

/-- No production gives a shorter word. -/
def Closed (productions : List (Production τ)) (table : Yields) : Prop :=
  ∀ p ∈ productions, Length.isLess (stateYield table p.body.symbols) (table.of p.lhs) = false

/-- In a sweep that changes nothing, no production changes anything. -/
theorem shorten_of_sweep {table : Yields} {ps : List (Production τ)}
    (stable : sweep ps table = .ok table) : ∀ p ∈ ps, shorten table p = .ok table := by
  induction ps with
  | nil => exact fun p mem => by cases mem
  | cons p ps ih =>
    obtain ⟨between, first, rest⟩ := sweep_cons_eq_ok.1 stable
    -- What has shrunk does not grow back.
    have same : between = table := by
      rcases shorten_shrinks first with same | shrinks
      · exact same
      · rcases sweep_shrinks rest with same | again
        · exact same.symm
        · exact absurd rfl (shrinks.trans again).ne
    subst same
    exact List.forall_mem_cons.2 ⟨first, ih rest⟩

theorem closed_of_sweep {table : Yields} {ps : List (Production τ)}
    (known : ∀ p ∈ ps, p.lhs ∈ table.map Prod.fst) (stable : sweep ps table = .ok table) :
    Closed ps table := by
  intro p mem
  rcases shorten_cases (shorten_of_sweep stable p mem) with ⟨-, least⟩ | ⟨n, -, less, changed⟩
  · exact least
  · have value : table.of p.lhs = some n := by
      rw [changed, Yields.of_set (known p mem), if_pos rfl]
    simp [value, Length.isLess] at less

theorem stateYield_nonterminal (table : Yields) (name : Ident) :
    stateYield (τ := τ) table [.nonterminal name] = table.of name :=
  Length.sum_singleton _

theorem stateYield_append (table : Yields) (a b : DerivationState τ) :
    (stateYield table (a ++ b)).value =
      (stateYield table a).value + (stateYield table b).value := by
  simp [stateYield]

/-- A table that no production improves is not improved by a derivation. -/
theorem Closed.value_le {table : Yields} (closed : Closed g.allProductions table)
    (nodup : g.nonterminals.Nodup) {state : DerivationState τ} {word : List τ}
    (derives : g.Derives state word) : (stateYield table state).value ≤ word.length := by
  induction derives with
  | nil => exact le_rfl
  | @emit rest word t _ ih =>
    rw [← List.singleton_append, stateYield_append, List.length_cons, Nat.cast_add, add_comm]
    exact add_le_add ih le_rfl
  | @unfold rest word name body rule _ ih =>
    have least := Length.isLess_eq_false_iff.1
      (closed ⟨name, body⟩ ((mem_allProductions nodup).2 rule))
    rw [stateYield_append] at ih
    rw [← List.singleton_append, stateYield_append, stateYield_nonterminal]
    exact (add_le_add least le_rfl).trans ih

/-- The table has the lengths of shortest words. -/
theorem isShortest_stateYield {table : Yields} (approximates : g.Approximates table)
    (nodup : g.nonterminals.Nodup) (stable : sweep g.allProductions table = .ok table)
    (state : DerivationState τ) : g.IsShortest state (stateYield table state) := by
  have closed : Closed g.allProductions table := by
    refine closed_of_sweep (fun p mem => ?_) stable
    rw [approximates.keys]
    exact lhs_mem_nonterminals mem
  have lower (word : List τ) (derives : g.Derives state word) := closed.value_le nodup derives
  cases found : stateYield table state with
  | none =>
    intro word derives
    have finite := lower word derives
    simp [found] at finite
  | some m =>
    refine ⟨approximates.realised.exists_derives found, fun word derives => ?_⟩
    simpa [found] using lower word derives

/-- A table that a sweep leaves as it is has the yields. -/
theorem eq_yields_of_sweep {table : Yields} (approximates : g.Approximates table)
    (nodup : g.nonterminals.Nodup) (stable : sweep g.allProductions table = .ok table) :
    table = g.yields := by
  apply Yields.eq_of_forall_of
  · rw [approximates.keys, keys_yields]
  · rwa [approximates.keys]
  · intro name
    have shortest := isShortest_stateYield approximates nodup stable [.nonterminal name]
    rw [stateYield_nonterminal] at shortest
    exact shortest.unique (g.isShortest_yields name)

/-! ## Settling -/

/-- The sweeps follow each other from a table on, and `result` is what they end with. -/
inductive Settles (productions : List (Production τ)) : Yields → Except Error Yields → Prop where
  | fails {table : Yields} {e : Error} (failed : sweep productions table = .error e) :
      Settles productions table (.error e)
  | rests {table : Yields} (stable : sweep productions table = .ok table) :
      Settles productions table (.ok table)
  | sweeps {table next : Yields} {result : Except Error Yields}
      (swept : sweep productions table = .ok next) (changed : next ≠ table)
      (rest : Settles productions next result) : Settles productions table result

theorem Settles.unique {productions : List (Production τ)} {table : Yields}
    {result other : Except Error Yields} (settles : Settles productions table result)
    (again : Settles productions table other) : other = result := by
  induction settles with
  | fails failed =>
    cases again with
    | fails same => exact failed.symm.trans same |>.symm
    | rests stable => cases failed.symm.trans stable
    | sweeps swept => cases failed.symm.trans swept
  | rests stable =>
    cases again with
    | fails failed => cases failed.symm.trans stable
    | rests => rfl
    | sweeps swept changed =>
      cases stable.symm.trans swept
      exact absurd rfl changed
  | sweeps swept changed _ ih =>
    cases again with
    | fails failed => cases failed.symm.trans swept
    | rests stable =>
      cases stable.symm.trans swept
      exact absurd rfl changed
    | sweeps same _ rest =>
      cases swept.symm.trans same
      exact ih rest

theorem settles_settle (productions : List (Production τ)) (table : Yields) :
    Settles productions table (settle productions table) := by
  fun_induction settle productions table with
  | case1 table e failed => exact .fails failed
  | case2 table stable => exact .rests stable
  | case3 table next swept changed ih => exact .sweeps swept changed ih

/-- The sweeps end with a table that one more sweep leaves as it is, or with the fault of a sum that
is out of range. -/
theorem Settles.answers {table : Yields} {result : Except Error Yields}
    (settles : Settles g.allProductions table result) (wellFormed : g.WellFormed)
    (approximates : g.Approximates table) :
    (∃ final, result = .ok final ∧ g.Approximates final ∧
      sweep g.allProductions final = .ok final) ∨
      result = .error (.conversion .decimalTooLarge) ∧ 1025 < g.nonterminals.length := by
  have inside : ∀ p ∈ g.allProductions, p ∈ g.allProductions := fun _ => id
  induction settles with
  | fails failed =>
    obtain ⟨rfl, meanwhile, approximates, name, left, right, rule, clash⟩ :=
      approximates.clash_of_sweep wellFormed.nodup inside failed
    refine .inr ⟨rfl, approximates.lt_length_of_clash ⟨?_, ?_⟩ clash⟩
    · exact wellFormed.known_of_body rule (.head _)
    · exact wellFormed.known_of_body rule (.tail _ (.head _))
  | @rests table stable => exact .inl ⟨table, rfl, approximates, stable⟩
  | sweeps swept _ _ ih => exact ih (approximates.after_sweep wellFormed.nodup inside swept)

theorem shortestLengths_cases (wellFormed : g.WellFormed) :
    (∃ table, g.shortestLengths = .ok table ∧ g.Approximates table ∧
      sweep g.allProductions table = .ok table) ∨
      g.shortestLengths = .error (.conversion .decimalTooLarge) ∧ 1025 < g.nonterminals.length :=
  (settles_settle _ _).answers wellFormed g.approximates_start

theorem eq_yields_of_shortestLengths (wellFormed : g.WellFormed) {table : Yields}
    (found : g.shortestLengths = .ok table) : table = g.yields := by
  rcases shortestLengths_cases wellFormed with ⟨_, same, approximates, stable⟩ | ⟨fails, -⟩
  · cases found.symm.trans same
    exact eq_yields_of_sweep approximates wellFormed.nodup stable
  · cases found.symm.trans fails

/-- The sweeps always end, and in one way only. If they end with a table, it has the length of a
shortest word for each nonterminal, and so has every derivation state, unless it derives no word and
a part of it has no word short enough to be added to an infinite length. Otherwise such a sum has
been met, and there are more than 1025 nonterminals. -/
theorem shortestLengths_exact (wellFormed : g.WellFormed) :
    (∀ result, Settles g.allProductions (g.nonterminals.map fun name => (name, none)) result ↔
      result = g.shortestLengths) ∧
    (∀ table, g.shortestLengths = .ok table →
      table.map Prod.fst = g.nonterminals ∧ table = g.yields ∧
      (∀ name length, (name, length) ∈ table → g.IsShortest [.nonterminal name] length) ∧
      ∀ state : DerivationState τ,
        (∃ length, stateLength table state = .ok length ∧ g.IsShortest state length) ∨
        (stateLength table state = .error (.conversion .decimalTooLarge) ∧
          g.IsShortest state none ∧
          ∃ part m, part <:+: state ∧ g.IsShortest part (some m) ∧ overflowBound ≤ m)) ∧
    (∀ e, g.shortestLengths = .error e →
      e = .conversion .decimalTooLarge ∧ 1025 < g.nonterminals.length) := by
  have settles := settles_settle g.allProductions (g.nonterminals.map fun name => (name, none))
  refine ⟨fun result => ⟨settles.unique, ?_⟩, fun table found => ?_, fun e fails => ?_⟩
  · rintro rfl
    exact settles
  · rcases shortestLengths_cases wellFormed with ⟨_, same, approximates, stable⟩ | ⟨fails, -⟩
    · cases found.symm.trans same
      have shortest := isShortest_stateYield approximates wellFormed.nodup stable
      refine ⟨approximates.keys, eq_yields_of_sweep approximates wellFormed.nodup stable,
        fun name length mem => ?_, fun state => ?_⟩
      · have keys : (table.map Prod.fst).Nodup := by
          rw [approximates.keys]
          exact wellFormed.nodup
        have entry := shortest [.nonterminal name]
        rwa [stateYield_nonterminal, Yields.of, (lookup_eq_some_iff keys).2 mem] at entry
      · rcases stateLength_cases table state with
          fits | ⟨fails, infinite, part, m, inside, value, large⟩
        · exact .inl ⟨_, fits, shortest state⟩
        · refine .inr ⟨fails, infinite ▸ shortest state, part, m, inside, ?_, large⟩
          exact value ▸ shortest part
    · cases found.symm.trans fails
  · rcases shortestLengths_cases wellFormed with ⟨_, found, -⟩ | ⟨same, many⟩
    · cases fails.symm.trans found
    · cases fails.symm.trans same
      exact ⟨rfl, many⟩

/-- Of the brackets only the sequence can be left out. A name that is not known has no word. -/
theorem shortestLengths_brackets :
    brackets.shortestLengths = .ok [(.int 0, some 0), (.int 1, some 1)] ∧
      brackets.IsShortest [.nonterminal (.int 1)] (some 1) ∧
      brackets.IsShortest [.nonterminal (.int 1), .nonterminal (.int 7)] none := by
  obtain ⟨ends, tables, -⟩ := shortestLengths_exact built_brackets.wellFormed
  have found := ((ends (.ok [(.int 0, some 0), (.int 1, some 1)])).1
    (.sweeps rfl (by decide) (.rests rfl))).symm
  obtain ⟨-, -, entries, states⟩ := tables _ found
  refine ⟨found, entries _ _ (.tail _ (.head _)), ?_⟩
  rcases states [.nonterminal (.int 1), .nonterminal (.int 7)] with
    ⟨length, measured, shortest⟩ | ⟨-, shortest, -⟩
  · cases (show Except.ok none = Except.ok length from measured)
    exact shortest
  · exact shortest

end ZeroRun.Grammar
