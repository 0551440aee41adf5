import ZeroRun.Datum

/-!
A document with collections that may stand at several places, even inside themselves. Such a
collection is kept apart under a number, so that its size is counted once.
-/
namespace ZeroRun

/-- A document: its value, and the collections that it and they refer to. -/
structure Document where
  root : Datum
  collections : Array Datum := #[]

namespace Document

/-- A value as it stands in a document: what a number refers to, or the value itself. -/
def resolve (document : Document) : Datum → Datum
  | .shared number => document.collections.getD number .null
  | other => other

/-- The brackets of a collection. -/
def bracketsOf : Datum → Brackets
  | .list _ => .square
  | _ => .curly

/-- A value with its collections in full, inside the collections of `path`. A collection inside
itself is only hinted at. -/
def expandWithin (document : Document) : (fuel : Nat) → (path : List Nat) → Datum → Datum
  | 0, _, value => value
  | fuel + 1, path, value =>
    match value with
    | .shared number =>
      let target := document.resolve value
      if number ∈ path then .again (bracketsOf target)
      else
        let inside := expandWithin document fuel (number :: path)
        match target with
        | .list items => .list (items.map inside)
        | .map entries => .map (entries.map fun (key, value) => (inside key, inside value))
        | other => other
    | .pair first second =>
      .pair (expandWithin document fuel path first) (expandWithin document fuel path second)
    | other => other

/-- A value with its collections in full. -/
def expand (document : Document) (value : Datum) : Datum :=
  expandWithin document (2 * document.collections.size + 2) [] value

end Document
end ZeroRun
