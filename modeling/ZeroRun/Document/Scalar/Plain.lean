import ZeroRun.Document.Cursor

/-!
Scalars without quotes. Such a scalar ends at the mark of a value or at a comment, inside a flow
collection also at its marks, and in a block where the indentation ends. It may go over several
lines; a single line break counts as a space, and of several ones all but the first are kept.
-/
namespace ZeroRun.Document

/-- What a line break, and those that follow it, come to: the first one is a space if it stands
alone, and nothing otherwise. -/
def fold (first : Char) (others : List Char) : List Char :=
  if first ≠ '\n' then first :: others
  else if others.isEmpty then [' ']
  else others

/-- The marks of flow collections, which end an unquoted scalar inside one. -/
def isFlowMark (c : Char) : Bool :=
  c = ',' || c = '[' || c = ']' || c = '\x7b' || c = '\x7d'

/-- Does an unquoted scalar, or the part of it that has no gaps, end here? -/
def plainEnds (flow : Bool) : List Char → Bool
  | [] => true
  | c :: cs =>
    isGap c || (c = ':' && firstOrEnd (fun d => isGap d || (flow && isFlowMark d)) cs)
      || (flow && (isFlowMark c || c = '?'))

/-- The breaks of blank lines behind a line break, and the place behind them, or `none` in front of
the mark of another document. -/
def plainLines : (fuel : Nat) → (breaks : List Char) → Cursor → Option (List Char) × Cursor
  | 0, breaks, cursor => (some breaks.reverse, cursor)
  | fuel + 1, breaks, cursor =>
    if cursor.column = 0 && anyMarkFirst cursor.rest then (none, cursor)
    else
      match cursor.rest with
      | [] => (some breaks.reverse, cursor)
      | c :: _ =>
        if c = ' ' then plainLines fuel breaks cursor.next
        else if isBreak c then plainLines fuel (c :: breaks) cursor.next
        else (some breaks.reverse, cursor)

/-- What a gap inside an unquoted scalar comes to, `none` if the document ends in it, and whether a
line is broken in it. -/
def plainGap (fuel : Nat) (cursor : Cursor) : Option (List Char) × Bool × Cursor :=
  let (spaces, cursor) := cursor.takeWhile (· = ' ') fuel
  match cursor.rest with
  | [] => (some spaces, false, cursor)
  | c :: _ =>
    if isBreak c then
      let (breaks, cursor) := plainLines fuel [] cursor.next
      (breaks.map (fold c), true, cursor)
    else (some spaces, false, cursor)

/-- The rest of an unquoted scalar behind a text, which is kept in reverse, and a gap: its text, the
place behind it, and whether a line has been broken since its last character. In a block it goes on
only in columns beyond `indent`. -/
def plainOnto (flow : Bool) (indent : Int) : (fuel : Nat) → (text gap : List Char) →
    (broken : Bool) → Cursor → List Char × Cursor × Bool
  | 0, text, _, broken, cursor => (text.reverse, cursor, broken)
  | fuel + 1, text, gap, broken, cursor =>
    let (chunk, after) := cursor.takeUntil (plainEnds flow) (fuel + 1)
    if cursor.peek? = some '#' || chunk.isEmpty then (text.reverse, cursor, broken)
    else
      let text := chunk.reverseAux (gap.reverseAux text)
      match plainGap (fuel + 1) after with
      | (none, broken, cursor) => (text.reverse, cursor, broken)
      | (some gap, broken, cursor) =>
        if gap.isEmpty || (!flow && decide ((cursor.column : Int) ≤ indent)) then
          (text.reverse, cursor, broken)
        else plainOnto flow indent fuel text gap broken cursor

/-- An unquoted scalar: its text, the place behind it and the gap that follows, and whether a line
is broken in that gap. -/
def plainScalar (flow : Bool) (indent : Int) (fuel : Nat) (cursor : Cursor) :
    String × Cursor × Bool :=
  let (text, cursor, broken) := plainOnto flow indent fuel [] [] false cursor
  (String.ofList text, cursor, broken)

/-- May an unquoted scalar begin here? -/
def plainFirst (flow : Bool) : List Char → Bool
  | [] => false
  | c :: cs =>
    !(isGap c || "-?:,[]\x7b\x7d#&*!|>'\"%@`".toList.contains c)
      || (!gapFirst cs && (c = '-' || (!flow && (c = '?' || c = ':'))))

end ZeroRun.Document
