import ZeroRun.Counters
import ZeroRun.Error
import ZeroRun.Sequence

/-!
Blocked stems. A word is blocked as soon as one of the recorded stems has been read from its
beginning. The stems are kept as a trie, whose nodes are numbered as they were made; the root has
the number zero.
-/
namespace ZeroRun

/-- The node at which a word stands, or `free` once it has left all recorded stems. -/
inductive TrieNode where
  | free
  | at (number : Nat)
deriving DecidableEq, Repr, Hashable

/-- The branches of a node, and whether a recorded stem ends there. -/
structure TrieBranches where
  children : List (Int × Nat) := []
  isStem : Bool := false
deriving DecidableEq, Repr

/-- Recorded stems and the nodes on the way to them. -/
structure Trie where
  nodes : Array TrieBranches := #[{}]
  stems : List Word := []

namespace Trie

/-- The node that a letter leads to. -/
def child? (nodes : Array TrieBranches) (number : Nat) (letter : Int) : Option Nat :=
  (nodes.getD number {}).children.lookup letter

/-- Does a recorded stem end at the node? -/
def isStem (nodes : Array TrieBranches) (number : Nat) : Bool :=
  (nodes.getD number {}).isStem

/-- The nodes with one more child. -/
def grow (nodes : Array TrieBranches) (number : Nat) (letter : Int) : Array TrieBranches :=
  (nodes.modify number fun node =>
    { node with children := node.children ++ [(letter, nodes.size)] }).push {}

/-- The nodes with one more mark. -/
def mark (nodes : Array TrieBranches) (number : Nat) : Array TrieBranches :=
  nodes.modify number fun node => { node with isStem := true }

/-- Follows a word from here, node by node, and makes the nodes that are missing. It stops where a
recorded stem ends; otherwise it marks the last node, which is new as a stem. -/
def addFrom (nodes : Array TrieBranches) (number : Nat) : Word → Bool × Array TrieBranches
  | [] => if isStem nodes number then (false, nodes) else (true, mark nodes number)
  | letter :: word =>
    if isStem nodes number then (false, nodes)
    else
      match child? nodes number letter with
      | some child => addFrom nodes child word
      | none => addFrom (grow nodes number letter) nodes.size word

/-- Records a stem and says whether it was new. -/
def add (trie : Trie) (stem : Word) : Except Error (Bool × Trie) :=
  if stem = [] then .error .emptyStem
  else
    let (fresh, nodes) := addFrom trie.nodes 0 stem
    .ok (fresh, { nodes, stems := if fresh then trie.stems ++ [stem] else trie.stems })

/-- The node after one more letter, or `none` if a recorded stem is complete. -/
def step (trie : Trie) (node : TrieNode) (letter : Int) : Option TrieNode :=
  match node with
  | .free => some .free
  | .at number =>
    match child? trie.nodes number letter with
    | none => some .free
    | some child => if isStem trie.nodes child then none else some (.at child)

/-- The node with a number, of which `-1` is the free one. Other negative numbers count from the
last node. -/
def nodeAt (trie : Trie) (number : Int) : Except Error TrieNode :=
  if number = -1 then .ok .free
  else
    match itemAt? (List.range trie.nodes.size) number with
    | some k => .ok (.at k)
    | none => .error .nodeOutOfRange

/-- Is the word blocked? -/
def blocks (trie : Trie) (word : Word) : Bool :=
  (word.foldlM trie.step (.at 0)).isNone

end Trie
end ZeroRun
