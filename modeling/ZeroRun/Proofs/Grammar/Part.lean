import Mathlib
import ZeroRun.Proofs.Grammar.Sweep

/-! Sweeps of a part of a grammar. Productions may be left out if their left-hand sides are, or if
no word can be derived from them: the sweeps through the others go through the same lengths. So they
succeed if those through the whole grammar do. -/
namespace ZeroRun.Grammar

variable {τ : Type} {g : Grammar τ} {inside : Ident → Bool} {kept : Production τ → Bool}

namespace Yields

/-- The lengths of some of the names. -/
def restrict (inside : Ident → Bool) (table : Yields) : Yields :=
  table.filter fun entry => inside entry.1

theorem of_restrict {name : Ident} (here : inside name = true) (table : Yields) :
    of (table.restrict inside) name = of table name := by
  rw [of, restrict, lookup_filter_key, if_pos here, of]

theorem restrict_set (name : Ident) (length : Length) (table : Yields) :
    (set name length table).restrict inside =
      if inside name then set name length (table.restrict inside) else table.restrict inside := by
  induction table with
  | nil => exact (ite_self _).symm
  | cons entry table ih =>
    obtain ⟨key, old⟩ := entry
    rw [set]
    by_cases same : name = key
    · subst same
      rw [if_pos rfl]
      cases here : inside name <;> simp [restrict, here, set]
    · rw [if_neg same]
      simp only [restrict] at ih ⊢
      cases there : inside key with
      | false => rw [List.filter_cons_of_neg (by simp [there]), ih,
          List.filter_cons_of_neg (by simp [there])]
      | true =>
        rw [List.filter_cons_of_pos (by simp [there]), ih,
          List.filter_cons_of_pos (by simp [there]), set, if_neg same]
        split <;> rfl

end Yields

/-- The part leaves out nothing that a word needs: its productions are about its own names, and
those that are left out are about other names or without a word. -/
structure IsPart (g : Grammar τ) (inside : Ident → Bool) (kept : Production τ → Bool) : Prop where
  own : ∀ p ∈ g.allProductions, kept p = true →
    inside p.lhs = true ∧ ∀ name ∈ p.body.nonterminals, inside name = true
  others : ∀ p ∈ g.allProductions, kept p = false →
    inside p.lhs = false ∨ ∀ word, ¬ g.Derives p.body.symbols word

theorem measure_restrict {body : Body τ} (own : ∀ name ∈ body.nonterminals, inside name = true)
    (table : Yields) : measure (table.restrict inside) body = measure table body := by
  have same : body.nonterminals.map (Yields.of (table.restrict inside)) =
      body.nonterminals.map table.of :=
    List.map_congr_left fun name mem => Yields.of_restrict (own name mem) table
  rw [measure, same, measure]

namespace IsPart
variable {p : Production τ} {table next : Yields}

theorem shorten_of_kept (part : g.IsPart inside kept) (mem : p ∈ g.allProductions)
    (keep : kept p = true) (done : shorten table p = .ok next) :
    shorten (table.restrict inside) p = .ok (next.restrict inside) := by
  obtain ⟨here, own⟩ := part.own p mem keep
  unfold shorten at done ⊢
  rw [measure_restrict own]
  cases measured : measure table p.body with
  | error e => simp [measured, bind, Except.bind] at done
  | ok length =>
    simp only [measured, bind, Except.bind, pure, Except.pure, Except.ok.injEq] at done ⊢
    rw [← done, Yields.of_restrict here]
    split
    · rw [Yields.restrict_set, if_pos here]
    · rfl

theorem restrict_of_not_kept (part : g.IsPart inside kept) (mem : p ∈ g.allProductions)
    (leave : kept p = false) (realised : g.Realised table) (done : shorten table p = .ok next) :
    next.restrict inside = table.restrict inside := by
  rcases shorten_cases done with ⟨rfl, -⟩ | ⟨n, found, -, rfl⟩
  · rfl
  rcases part.others p mem leave with outside | barren
  · rw [Yields.restrict_set, outside]
    rfl
  · -- A finite length is the length of a word.
    obtain ⟨word, derives, -⟩ := realised.exists_derives found
    exact absurd derives (barren word)

theorem sweep (part : g.IsPart inside kept) (nodup : g.nonterminals.Nodup)
    {ps : List (Production τ)} (all : ∀ p ∈ ps, p ∈ g.allProductions)
    (approximates : g.Approximates table) (done : Grammar.sweep ps table = .ok next) :
    Grammar.sweep (ps.filter kept) (table.restrict inside) = .ok (next.restrict inside) := by
  induction ps generalizing table with
  | nil =>
    cases done
    rfl
  | cons p ps ih =>
    obtain ⟨between, first, rest⟩ := sweep_cons_eq_ok.1 done
    obtain ⟨here, later⟩ := List.forall_mem_cons.1 all
    have further := ih later (approximates.after_shorten nodup here first) rest
    cases keep : kept p with
    | true =>
      rw [List.filter_cons_of_pos keep]
      exact sweep_cons_eq_ok.2 ⟨_, part.shorten_of_kept here keep first, further⟩
    | false =>
      have same := part.restrict_of_not_kept here keep approximates.realised first
      rwa [List.filter_cons_of_neg (by simp [keep]), ← same]

theorem settles (part : g.IsPart inside kept) (nodup : g.nonterminals.Nodup)
    {result : Except Error Yields} (settles : Settles g.allProductions table result)
    (approximates : g.Approximates table) (done : result = .ok next) :
    ∃ final, Settles (g.allProductions.filter kept) (table.restrict inside) (.ok final) := by
  have all : ∀ p ∈ g.allProductions, p ∈ g.allProductions := fun _ => id
  induction settles with
  | fails failed => cases done
  | rests stable => exact ⟨_, .rests (part.sweep nodup all approximates stable)⟩
  | @sweeps table between _ swept _ _ ih =>
    have inner := part.sweep nodup all approximates swept
    obtain ⟨final, rest⟩ := ih (approximates.after_sweep nodup all swept) done
    by_cases same : between.restrict inside = table.restrict inside
    · -- The sweep has only changed lengths of other names.
      rw [same] at inner
      exact ⟨_, .rests inner⟩
    · exact ⟨final, .sweeps inner same rest⟩

/-- A grammar of the names and the productions of the part has its shortest lengths. -/
theorem exists_shortestLengths (part : g.IsPart inside kept) (nodup : g.nonterminals.Nodup)
    (found : g.shortestLengths = .ok table) {h : Grammar τ}
    (names : h.nonterminals = g.nonterminals.filter inside)
    (productions : h.allProductions = g.allProductions.filter kept) :
    ∃ lengths, h.shortestLengths = .ok lengths := by
  obtain ⟨final, settles⟩ := part.settles nodup (settles_settle _ _) g.approximates_start found
  have start : h.nonterminals.map (fun name => (name, (none : Length))) =
      Yields.restrict inside (g.nonterminals.map fun name => (name, none)) := by
    rw [names, Yields.restrict, List.filter_map]
    rfl
  refine ⟨final, ?_⟩
  rw [shortestLengths, productions, start]
  exact settles.unique (settles_settle _ _)

end IsPart
end ZeroRun.Grammar
