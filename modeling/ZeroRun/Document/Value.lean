import ZeroRun.Document.Basic
import ZeroRun.Document.Meaning
import ZeroRun.Document.Node

/-!
The value of a document, from its nodes. Collections are made empty and filled one after the other,
in the order in which they are met, so that a collection may be a member of itself; the first fault
in this order is the one that counts.

A mapping may take over the entries of others under a mark of its own. Its own entries win, and of
several others the first one.
-/
namespace ZeroRun.Document

/-- What is known while values are made of nodes. -/
structure Building where
  nodes : Array Node
  /-- The contents of the collections that have been filled, under the numbers of their nodes. -/
  contents : Array Datum
  /-- The nodes that have been met, with their values. -/
  known : Array (Option Datum)
  /-- The collections that are still to be filled, from the last one met. -/
  waiting : List Nat := []

/-- A maker of values. -/
abbrev Builder := StateT Building (Except Error)

/-- The node with a number. -/
def nodeAt (number : Nat) : Builder Node :=
  return (← get).nodes.getD number (.scalar .unknown "")

/-- The number that a key counts as; a truth value counts as zero or one. -/
def keyNumber? : Datum → Option Number
  | .bool b => some (.int (if b then 1 else 0))
  | .int n => some (.int n)
  | .float x => some (.float x)
  | _ => none

/-- Are two keys the same? -/
def sameKey (a b : Datum) : Bool :=
  match keyNumber? a, keyNumber? b with
  | some m, some n => !m.exceeds n && !n.exceeds m && m.isNaN == n.isNaN
  | none, none =>
    match a, b with
    | .null, .null => true
    | .text s, .text t => s = t
    | .bytes s, .bytes t => s = t
    | .date s, .date t => s = t
    | .moment s, .moment t => s = t
    | _, _ => false
  | _, _ => false

/-- Can the value be a key? Collections cannot. -/
def isKey : Datum → Bool
  | .shared _ => false
  | _ => true

/-- Puts an entry into a mapping; an entry with the same key is replaced at its place. -/
def putEntry (entries : List (Datum × Datum)) (entry : Datum × Datum) : List (Datum × Datum) :=
  if entries.any fun e => sameKey e.1 entry.1 then
    entries.map fun e => if sameKey e.1 entry.1 then (e.1, entry.2) else e
  else entries ++ [entry]

/-- The text of a node that is to be a scalar. A mapping stands for the value under its default
mark. -/
def scalarText : (fuel : Nat) → (number : Nat) → Builder String
  | 0, _ => throw .unreadable
  | fuel + 1, number => do
    match ← nodeAt number with
    | .scalar _ text => return text
    | .sequence _ _ => throw .unreadable
    | .mapping _ entries =>
      let nodes := (← get).nodes
      let marked := entries.find? fun (key, _) =>
        (nodes.getD key (.scalar .unknown "")).tag = .value
      match marked with
      | some (_, value) => scalarText fuel value
      | none => throw .unreadable

/-- Is the node a mapping? -/
def isMapping : Node → Bool
  | .mapping _ _ => true
  | _ => false

/-- The kinds of collections. -/
def isCollection : Tag → Bool
  | .seq | .map | .set | .omap | .pairs => true
  | _ => false

/-- The value of a node; a collection is only taken note of. -/
def valueOf (number : Nat) : Builder Datum := do
  let building ← get
  match building.known.getD number none with
  | some value => return value
  | none =>
    let node ← nodeAt number
    let value ←
      if isCollection node.tag then do
        modify fun building => { building with waiting := number :: building.waiting }
        pure (Datum.shared number)
      else if node.tag = .merge || node.tag = .value || node.tag = .unknown then throw .unreadable
      else do
        let text ← scalarText (building.nodes.size + 1) number
        if node.tag = .timestamp && isMapping node then throw (.scalar .momentFromList)
        else
          match scalarValue node.tag text with
          | .ok value => pure value
          | .error e => throw e
    modify fun building =>
      { building with known := building.known.setIfInBounds number (some value) }
    return value

/-- The entries of a mapping node. -/
def entriesAt (number : Nat) : Builder (List (Nat × Nat)) := do
  match ← nodeAt number with
  | .mapping _ entries => return entries
  | _ => throw .unreadable

/-- Changes the entries of a mapping node. -/
def setEntries (number : Nat) (entries : List (Nat × Nat)) : Builder Unit := do
  match ← nodeAt number with
  | .mapping tag _ =>
    modify fun building =>
      { building with nodes := building.nodes.setIfInBounds number (.mapping tag entries) }
  | _ => return ()

mutual

/-- Goes through the entries of a mapping from a place on, and gathers those that are taken over
from others. The mark of these is taken out, and a default mark becomes a text. -/
def gather (number : Nat) : (fuel place : Nat) → (merged : List (Nat × Nat)) →
    Builder (List (Nat × Nat))
  | 0, _, _ => throw .unreadable
  | fuel + 1, place, merged => do
    let entries ← entriesAt number
    match entries[place]? with
    | none => return merged
    | some (key, value) =>
      let keyNode ← nodeAt key
      if keyNode.tag = .merge then
        setEntries number (entries.eraseIdx place)
        match ← nodeAt value with
        | .mapping _ _ =>
          flatten fuel value
          gather number fuel place (merged ++ (← entriesAt value))
        | .sequence _ items =>
          let parts ← flattenAll fuel items
          gather number fuel place (merged ++ parts.flatten)
        | .scalar _ _ => throw .unreadable
      else if keyNode.tag = .value then
        modify fun building =>
          { building with nodes := building.nodes.setIfInBounds key (keyNode.withTag .str) }
        gather number fuel (place + 1) merged
      else gather number fuel (place + 1) merged

/-- Puts the entries that a mapping takes over from others in front of its own. -/
def flatten : (fuel number : Nat) → Builder Unit
  | 0, _ => throw .unreadable
  | fuel + 1, number => do
    let merged ← gather number fuel 0 []
    if merged.isEmpty then return ()
    else setEntries number (merged ++ (← entriesAt number))

/-- The entries of several mappings, those of the last one first. -/
def flattenAll : (fuel : Nat) → List Nat → Builder (List (List (Nat × Nat)))
  | 0, _ => throw .unreadable
  | _ + 1, [] => return []
  | fuel + 1, number :: numbers => do
    flatten fuel number
    let entries ← entriesAt number
    return (← flattenAll fuel numbers) ++ [entries]

end

/-- The number of entries of all mappings. -/
def entryCount (nodes : Array Node) : Nat :=
  nodes.foldl (fun sum node =>
    match node with
    | .mapping _ entries => sum + entries.length + 1
    | .sequence _ items => sum + items.length + 1
    | .scalar _ _ => sum + 1) 0

/-- The entries of a mapping with those that it takes over. -/
def flatEntries (number : Nat) : Builder (List (Nat × Nat)) := do
  let nodes := (← get).nodes
  let total := entryCount nodes
  match ← nodeAt number with
  | .mapping _ _ =>
    flatten ((total + 2) * (total + 2)) number
    entriesAt number
  | _ => throw .unreadable

/-- The values of a mapping's entries. -/
def mappingValues (number : Nat) : Builder (List (Datum × Datum)) := do
  (← flatEntries number).foldlM (fun values (key, value) => do
    let key ← valueOf key
    if isKey key then return putEntry values (key, ← valueOf value) else throw .unreadable) []

/-- The values of a sequence of mappings with a single entry each. -/
def pairValues (number : Nat) : Builder (List Datum) := do
  match ← nodeAt number with
  | .sequence _ items =>
    items.mapM fun item => do
      match ← nodeAt item with
      | .mapping _ [(key, value)] => return .pair (← valueOf key) (← valueOf value)
      | _ => throw .unreadable
  | _ => throw .unreadable

/-- The contents of a collection. -/
def contentsOf (number : Nat) : Builder Datum := do
  match ← nodeAt number with
  | node =>
    match node.tag, node with
    | .seq, .sequence _ items => return .list (← items.mapM valueOf)
    | .map, _ => return .map (← mappingValues number)
    | .set, _ => return .set ((← mappingValues number).map Prod.fst)
    | .omap, _ | .pairs, _ => return .list (← pairValues number)
    | _, _ => throw .unreadable

/-- Fills the collections that have been met, and those that are met meanwhile, in order. -/
def fillAll : (fuel : Nat) → Builder Unit
  | 0 => return ()
  | fuel + 1 => do
    let building ← get
    match building.waiting.reverse with
    | [] => return ()
    | numbers =>
      set { building with waiting := [] }
      numbers.forM fun number => do
        let contents ← contentsOf number
        modify fun building =>
          { building with contents := building.contents.setIfInBounds number contents }
      fillAll fuel

/-- The document in a text, or what makes it unreadable. A text without content is null. -/
def ofText (text : String) : Except Error Document := do
  let (nodes, root) ← nodesOf text
  match root with
  | none => return ⟨.null, #[]⟩
  | some root =>
    let start : Building :=
      { nodes, contents := Array.replicate nodes.size .null, known := Array.replicate nodes.size none }
    let build : Builder Datum := do
      let value ← valueOf root
      fillAll (nodes.size + 1)
      return value
    let (value, building) ← build start
    return ⟨value, building.contents⟩

end ZeroRun.Document
