import ZeroRun.Exclusion.LoopPattern

/-!
Places in a loop pattern that are given by any two numbers. Numbers of segments and offsets may
count from the end; a place that counts so is never one where the pattern may be left or begun
anew.
-/
namespace ZeroRun

/-- A place by the number of its segment and its offset. -/
structure Place where
  segment : Int
  offset : Int
deriving DecidableEq, Repr

namespace Place

/-- Places in the order of segments, then of offsets. -/
def le (a b : Place) : Bool :=
  decide (a.segment < b.segment) || (a.segment == b.segment && decide (a.offset ≤ b.offset))

/-- The place of a position. -/
def ofPosition (p : Position) : Place :=
  ⟨p.segment.number, p.offset⟩

/-- The position at a place whose numbers count from the front. -/
def position? (place : Place) : Option Position :=
  if 0 ≤ place.offset then
    ([Segment.stem, .cycle, .tail].find? fun segment => (segment.number : Int) = place.segment).map
      fun segment => ⟨segment, place.offset.toNat⟩
  else none

end Place

namespace LoopPattern
variable (pattern : LoopPattern)

/-- The place behind a letter, if that letter comes next. -/
def advancePlace (letter : Int) (place : Place) : Except Error (Option Place) :=
  match itemAt? [pattern.stem, pattern.cycle, pattern.tail] place.segment with
  | none => .error .indexOutOfRange
  | some word =>
    if word.length ≤ place.offset then .ok none
    else
      match itemAt? word place.offset with
      | none => .error .indexOutOfRange
      | some next =>
        .ok (if next = letter then some { place with offset := place.offset + 1 } else none)

/-- The places that are reached from a place without a letter. -/
def skipPlaces (place : Place) : List Place :=
  match place.position? with
  | some p => (pattern.skips p).map .ofPosition
  | none => []

/-- The places after one more letter. -/
def stepPlaces (places : List Place) (letter : Int) : Except Error (List Place) := do
  let advanced := (← places.mapM (pattern.advancePlace letter)).filterMap id
  return distinct ((advanced ++ advanced.flatMap pattern.skipPlaces).mergeSort Place.le)

end LoopPattern
end ZeroRun
