import Mathlib
import ZeroRun.Exclusion.Trie

/-! The meaning of a trie is the set of words that lead from the root to a marked node. Recording
a stem adds exactly this stem to it. Following a word node by node, it is blocked as soon as one
of the recorded stems has been read, and a stem is covered if it begins with a recorded one.
Nodes are made while a stem is followed, before it is known to be new; for a stem that is not
new, none are. -/
namespace ZeroRun.Trie

variable {nodes : Array TrieBranches} {number : Nat} {letter : Int} {u v word : Word}

/-! ## Nodes and the words that lead to them -/

/-- The node that a word leads to. -/
def locate (nodes : Array TrieBranches) (number : Nat) : Word → Option Nat
  | [] => some number
  | letter :: word => (child? nodes number letter).bind fun child => locate nodes child word

theorem locate_append (number : Nat) (u v : Word) :
    locate nodes number (u ++ v) = (locate nodes number u).bind fun k => locate nodes k v := by
  induction u generalizing number with
  | nil => rfl
  | cons letter u ih => cases found : child? nodes number letter <;> simp [locate, found, ih]

theorem locate_concat (number : Nat) (word : Word) (letter : Int) :
    locate nodes number (word ++ [letter]) =
      (locate nodes number word).bind fun k => child? nodes k letter := by
  rw [locate_append]
  cases locate nodes number word with
  | none => rfl
  | some k => cases found : child? nodes k letter <;> simp [locate, found]

/-- Words lead from the root to nodes of the trie, and different words to different ones. -/
structure Treelike (nodes : Array TrieBranches) : Prop where
  inside : ∀ {word k}, locate nodes 0 word = some k → k < nodes.size
  injective : ∀ {u v k}, locate nodes 0 u = some k → locate nodes 0 v = some k → u = v

/-- The word leads from the root to a marked node. -/
def Marks (nodes : Array TrieBranches) (word : Word) : Prop :=
  ∃ k, locate nodes 0 word = some k ∧ isStem nodes k = true

/-! ## Recording a stem -/

theorem getD_grow (inside : number < nodes.size) (k : Nat) :
    (grow nodes number letter).getD k {} =
      if k = number then
        { nodes.getD k {} with
          children := (nodes.getD k {}).children ++ [(letter, nodes.size)] }
      else nodes.getD k {} := by
  simp only [grow, Array.getD_eq_getD_getElem?, Array.getElem?_push, Array.size_modify,
    Array.getElem?_modify]
  by_cases last : k = nodes.size
  · have other : k ≠ number := by omega
    rw [if_pos last, if_neg other, Array.getElem?_eq_none (by omega)]
    rfl
  · by_cases same : k = number
    · subst same
      simp [last, inside]
    · simp [last, same, Ne.symm same]

theorem child?_grow (inside : number < nodes.size) (missing : child? nodes number letter = none)
    (k : Nat) (l : Int) :
    child? (grow nodes number letter) k l =
      if k = number ∧ l = letter then some nodes.size else child? nodes k l := by
  rw [child?, getD_grow inside]
  by_cases same : k = number
  · subst same
    rw [child?] at missing
    by_cases equal : l = letter
    · subst equal
      simp only [if_true, List.lookup_append, missing, List.lookup, beq_self_eq_true, and_self]
      rfl
    · have apart : (l == letter) = false := beq_eq_false_iff_ne.2 equal
      simp [child?, List.lookup_append, equal, List.lookup, apart]
  · simp [same, child?]

theorem isStem_grow (inside : number < nodes.size) (k : Nat) :
    isStem (grow nodes number letter) k = isStem nodes k := by
  rw [isStem, getD_grow inside]
  split <;> rfl

theorem child?_mark (k : Nat) (l : Int) : child? (mark nodes number) k l = child? nodes k l := by
  simp only [child?, mark, Array.getD_eq_getD_getElem?, Array.getElem?_modify]
  split
  · rename_i same
    subst same
    cases nodes[number]? <;> rfl
  · rfl

theorem isStem_mark (inside : number < nodes.size) (k : Nat) :
    isStem (mark nodes number) k = true ↔ isStem nodes k = true ∨ k = number := by
  simp only [isStem, mark, Array.getD_eq_getD_getElem?, Array.getElem?_modify]
  by_cases same : number = k
  · subst same
    simp [inside]
  · simp [same, Ne.symm same]

theorem locate_mark (k : Nat) (word : Word) :
    locate (mark nodes number) k word = locate nodes k word := by
  induction word generalizing k with
  | nil => rfl
  | cons letter word ih => simp [locate, child?_mark, ih]

/-- A new child is found by one word more, and all other words lead where they led. -/
theorem Treelike.locate_grow (tree : Treelike nodes) {path : Word}
    (here : locate nodes 0 path = some number) (missing : child? nodes number letter = none)
    (word : Word) :
    locate (grow nodes number letter) 0 word =
      if word = path ++ [letter] then some nodes.size else locate nodes 0 word := by
  have inside := tree.inside here
  induction word using List.reverseRecOn with
  | nil => simp [locate]
  | append_singleton word l ih =>
    rw [locate_concat, ih, locate_concat]
    by_cases beyond : word = path ++ [letter]
    · subst beyond
      have fresh : nodes.size ≠ number := by omega
      have outside : child? nodes nodes.size l = none := by simp [child?]
      rw [if_pos rfl, if_neg (by simp), locate_concat, here]
      simp [child?_grow inside missing, fresh, outside, missing]
    · rw [if_neg beyond]
      by_cases parent : word = path
      · subst parent
        rw [here]
        simp [child?_grow inside missing]
      · cases found : locate nodes 0 word with
        | none => simp [parent]
        | some k =>
          have other : k ≠ number := by
            rintro rfl
            exact parent (tree.injective found here)
          simp [child?_grow inside missing, other, parent]

theorem Treelike.grow (tree : Treelike nodes) {path : Word}
    (here : locate nodes 0 path = some number) (missing : child? nodes number letter = none) :
    Treelike (grow nodes number letter) := by
  have size : (Trie.grow nodes number letter).size = nodes.size + 1 := by simp [Trie.grow]
  constructor
  · intro word k found
    rw [tree.locate_grow here missing] at found
    rw [size]
    split at found
    · cases found
      omega
    · exact Nat.lt_succ_of_lt (tree.inside found)
  · intro u v k first second
    rw [tree.locate_grow here missing] at first second
    split at first <;> split at second
    · rename_i left right
      rw [left, right]
    · cases first
      exact absurd (tree.inside second) (lt_irrefl _)
    · cases second
      exact absurd (tree.inside first) (lt_irrefl _)
    · exact tree.injective first second

theorem Treelike.marks_grow (tree : Treelike nodes) {path : Word}
    (here : locate nodes 0 path = some number) (missing : child? nodes number letter = none) :
    Marks (Trie.grow nodes number letter) word ↔ Marks nodes word := by
  have inside := tree.inside here
  simp only [Marks, tree.locate_grow here missing, isStem_grow inside]
  split
  · rename_i same
    subst same
    rw [locate_concat, here]
    simp [missing, isStem]
  · rfl

theorem Treelike.mark (tree : Treelike nodes) : Treelike (mark nodes number) := by
  constructor
  · intro word k found
    rw [locate_mark] at found
    simpa [Trie.mark] using tree.inside found
  · intro u v k first second
    rw [locate_mark] at first second
    exact tree.injective first second

theorem Treelike.marks_mark (tree : Treelike nodes) {path : Word}
    (here : locate nodes 0 path = some number) :
    Marks (Trie.mark nodes number) word ↔ Marks nodes word ∨ word = path := by
  simp only [Marks, locate_mark, isStem_mark (tree.inside here)]
  constructor
  · rintro ⟨k, found, stem | rfl⟩
    · exact .inl ⟨k, found, stem⟩
    · exact .inr (tree.injective found here)
  · rintro (⟨k, found, stem⟩ | rfl)
    · exact ⟨k, found, .inl stem⟩
    · exact ⟨number, here, .inr rfl⟩

/-- Makes the nodes that are missing on the way from here, and marks the last one. -/
def insertFrom (nodes : Array TrieBranches) (number : Nat) : Word → Array TrieBranches
  | [] => mark nodes number
  | letter :: word =>
    match child? nodes number letter with
    | some child => insertFrom nodes child word
    | none => insertFrom (Trie.grow nodes number letter) nodes.size word

/-- Inserting from a node keeps the tree and marks one word more. -/
theorem Treelike.insertFrom (tree : Treelike nodes) {path : Word}
    (here : locate nodes 0 path = some number) (stem : Word) :
    Treelike (insertFrom nodes number stem) ∧
      ∀ word, Marks (insertFrom nodes number stem) word ↔
        Marks nodes word ∨ word = path ++ stem := by
  induction stem generalizing nodes number path with
  | nil => exact ⟨tree.mark, fun word => by rw [List.append_nil]; exact tree.marks_mark here⟩
  | cons letter stem ih =>
    rw [Trie.insertFrom, List.append_cons]
    cases found : child? nodes number letter with
    | some child => exact ih tree (by rw [locate_concat, here]; exact found)
    | none =>
      have next : locate (Trie.grow nodes number letter) 0 (path ++ [letter]) = some nodes.size := by
        rw [tree.locate_grow here found, if_pos rfl]
      obtain ⟨grown, marks⟩ := ih (tree.grow here found) next
      exact ⟨grown, fun word => (marks word).trans (or_congr_left (tree.marks_grow here found))⟩

/-! ## Reading a word -/

/-- Does a recorded stem end at a node on the way from here? -/
def coversFrom (nodes : Array TrieBranches) (number : Nat) : Word → Bool
  | [] => isStem nodes number
  | letter :: word =>
    isStem nodes number
      || match child? nodes number letter with
        | some child => coversFrom nodes child word
        | none => false

/-- Does the word begin with a recorded stem? -/
def covers (trie : Trie) (word : Word) : Bool :=
  coversFrom trie.nodes 0 word

theorem coversFrom_iff : coversFrom nodes number word = true ↔
    ∃ u, u <+: word ∧ ∃ k, locate nodes number u = some k ∧ isStem nodes k = true := by
  induction word generalizing number with
  | nil => simp [coversFrom, locate]
  | cons letter word ih =>
    rw [coversFrom, Bool.or_eq_true]
    constructor
    · rintro (stem | covered)
      · exact ⟨[], List.nil_prefix, number, rfl, stem⟩
      · cases found : child? nodes number letter with
        | none => simp [found] at covered
        | some child =>
          rw [found] at covered
          obtain ⟨u, begins, k, reached, stem⟩ := ih.1 covered
          exact ⟨letter :: u, List.cons_prefix_cons.2 ⟨rfl, begins⟩, k,
            by simp [locate, found, reached], stem⟩
    · rintro ⟨u, begins, k, reached, stem⟩
      cases u with
      | nil =>
        cases reached
        exact .inl stem
      | cons first u =>
        obtain ⟨rfl, onward⟩ := List.cons_prefix_cons.1 begins
        obtain ⟨child, found, reached⟩ := Option.bind_eq_some_iff.1 reached
        rw [found]
        exact .inr (ih.2 ⟨u, onward, k, reached, stem⟩)

/-- From a node with neither branches nor mark, no stem is covered. -/
theorem coversFrom_of_bare (bare : nodes.getD number {} = {}) (word : Word) :
    coversFrom nodes number word = false := by
  cases word with
  | nil => simp [coversFrom, isStem, bare]
  | cons letter word => simp [coversFrom, isStem, child?, bare]

theorem getD_grow_size (nodes : Array TrieBranches) (number : Nat) (letter : Int) :
    (grow nodes number letter).getD nodes.size {} = {} := by
  rw [grow, Array.getD_eq_getD_getElem?, Array.getElem?_push, Array.size_modify, if_pos rfl]
  rfl

/-- Following a stem and making nodes at the same time comes to the same as looking first whether
it is covered. The nodes that are made hold no mark, so once one has been made the stem is new; and
a stem that is not new has made none. -/
theorem addFrom_eq (nodes : Array TrieBranches) (number : Nat) (stem : Word) :
    addFrom nodes number stem =
      if coversFrom nodes number stem then (false, nodes)
      else (true, insertFrom nodes number stem) := by
  induction stem generalizing nodes number with
  | nil => rfl
  | cons letter stem ih =>
    rw [addFrom, coversFrom, insertFrom]
    cases isStem nodes number with
    | true => rfl
    | false =>
      cases found : child? nodes number letter with
      | some child => simp only [ih, Bool.false_or, Bool.false_eq_true, if_false]
      | none =>
        have bare := coversFrom_of_bare (getD_grow_size nodes number letter) stem
        simp only [ih, bare, Bool.false_or, Bool.false_eq_true, if_false]

variable {trie : Trie}

theorem foldlM_step_free (word : Word) : word.foldlM trie.step .free = some .free := by
  induction word with
  | nil => rfl
  | cons letter word ih => exact ih

/-- A word is blocked if it leads to a mark on its way, its beginning apart. -/
theorem foldlM_step_eq_none_iff : word.foldlM trie.step (.at number) = none ↔
    ∃ u, u ≠ [] ∧ u <+: word ∧
      ∃ k, locate trie.nodes number u = some k ∧ isStem trie.nodes k = true := by
  induction word generalizing number with
  | nil => simp
  | cons letter word ih =>
    rw [List.foldlM_cons, step]
    constructor
    · intro blocked
      cases found : child? trie.nodes number letter with
      | none => simp [found, foldlM_step_free] at blocked
      | some child =>
        simp only [found] at blocked
        split at blocked
        · rename_i stem
          exact ⟨[letter], by simp, by simp, child, by simp [locate, found], stem⟩
        · obtain ⟨u, -, begins, k, reached, stem⟩ := ih.1 blocked
          exact ⟨letter :: u, by simp, List.cons_prefix_cons.2 ⟨rfl, begins⟩, k,
            by simp [locate, found, reached], stem⟩
    · rintro ⟨u, ne, begins, k, reached, stem⟩
      cases u with
      | nil => exact absurd rfl ne
      | cons first u =>
        obtain ⟨rfl, onward⟩ := List.cons_prefix_cons.1 begins
        obtain ⟨child, found, reached⟩ := Option.bind_eq_some_iff.1 reached
        simp only [found]
        split
        · rfl
        · rename_i unmarked
          refine ih.2 ⟨u, ?_, onward, k, reached, stem⟩
          rintro rfl
          cases reached
          exact unmarked stem

theorem locate_of_foldlM_step {k : Nat}
    (reached : word.foldlM trie.step (.at number) = some (.at k)) :
    locate trie.nodes number word = some k := by
  induction word generalizing number with
  | nil => cases reached; rfl
  | cons letter word ih =>
    rw [List.foldlM_cons, step] at reached
    cases found : child? trie.nodes number letter with
    | none => simp [found, foldlM_step_free] at reached
    | some child =>
      simp only [found] at reached
      split at reached
      · cases reached
      · simpa [locate, found] using ih reached

/-! ## Tries that come from recording stems -/

/-- The marked words are the recorded stems, none of which is empty. -/
structure Sound (trie : Trie) : Prop where
  tree : Treelike trie.nodes
  marks : ∀ word, Marks trie.nodes word ↔ word ∈ trie.stems
  nonempty : [] ∉ trie.stems

theorem sound_empty : Sound {} := by
  have only : ∀ {word k}, locate #[{}] 0 word = some k → word = [] ∧ k = 0 := by
    intro word k found
    cases word with
    | nil => exact ⟨rfl, (Option.some.inj found).symm⟩
    | cons letter word => simp [locate, child?] at found
  refine ⟨⟨fun found => ?_, fun first second => ?_⟩, fun word => ?_, by simp⟩
  · simp [(only found).2]
  · rw [(only first).1, (only second).1]
  · simp only [Marks, List.not_mem_nil, iff_false]
    rintro ⟨k, found, stem⟩
    simp [(only found).2, isStem] at stem

/-- A word is covered if it begins with a recorded stem. -/
theorem Sound.covers_iff (sound : trie.Sound) :
    trie.covers word = true ↔ ∃ stem ∈ trie.stems, stem <+: word := by
  rw [covers, coversFrom_iff]
  constructor
  · rintro ⟨u, begins, marked⟩
    exact ⟨u, (sound.marks u).1 marked, begins⟩
  · rintro ⟨u, recorded, begins⟩
    exact ⟨u, begins, (sound.marks u).2 recorded⟩

/-- A word is blocked if it begins with a recorded stem. -/
theorem Sound.blocked_iff (sound : trie.Sound) :
    word.foldlM trie.step (.at 0) = none ↔ ∃ stem ∈ trie.stems, stem <+: word := by
  rw [foldlM_step_eq_none_iff]
  constructor
  · rintro ⟨u, -, begins, marked⟩
    exact ⟨u, (sound.marks u).1 marked, begins⟩
  · rintro ⟨u, recorded, begins⟩
    refine ⟨u, ?_, begins, (sound.marks u).2 recorded⟩
    rintro rfl
    exact sound.nonempty recorded

/-- Recording a stem that is covered changes nothing. -/
theorem add_of_covers {stem : Word} (ne : stem ≠ []) (covered : trie.covers stem = true) :
    trie.add stem = .ok (false, trie) := by
  have covered : coversFrom trie.nodes 0 stem = true := covered
  simp [add, ne, addFrom_eq, covered]

/-- Recording a stem that is not covered makes its nodes and appends it to the stems. -/
theorem add_of_not_covers {stem : Word} (ne : stem ≠ []) (uncovered : trie.covers stem = false) :
    trie.add stem = .ok (true, ⟨insertFrom trie.nodes 0 stem, trie.stems ++ [stem]⟩) := by
  have uncovered : coversFrom trie.nodes 0 stem = false := uncovered
  simp [add, ne, addFrom_eq, uncovered]

/-- A stem that is not covered is recorded. -/
theorem Sound.add (sound : trie.Sound) {stem : Word} (ne : stem ≠ [])
    (uncovered : trie.covers stem = false) :
    ∃ next : Trie, trie.add stem = .ok (true, next) ∧ next.Sound ∧
      next.stems = trie.stems ++ [stem] := by
  refine ⟨_, add_of_not_covers ne uncovered, ?_, rfl⟩
  have root : locate trie.nodes 0 [] = some 0 := rfl
  obtain ⟨tree, marks⟩ := sound.tree.insertFrom root stem
  refine ⟨tree, fun word => ?_, by simpa [Ne.symm ne] using sound.nonempty⟩
  rw [marks, sound.marks, List.mem_append, List.mem_singleton, List.nil_append]

end ZeroRun.Trie
