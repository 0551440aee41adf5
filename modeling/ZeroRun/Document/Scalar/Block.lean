import ZeroRun.Document.Scalar.Plain

/-!
Scalars that are written as a block of lines behind a mark. In a literal block all line breaks are
kept; in a folded one a break between two lines that begin with no blank counts as a space. Signs
behind the mark say what becomes of the line breaks at the end and how deep the block stands.
-/
namespace ZeroRun.Document

/-- What becomes of the line breaks at the end of a block: none is kept, one, or all. -/
inductive Chomping where
  | strip
  | clip
  | keep
deriving DecidableEq, Repr

/-- The sign for what becomes of the line breaks. -/
def chomping? : Char → Option Chomping
  | '+' => some .keep
  | '-' => some .strip
  | _ => none

/-- The sign for the depth of a block. -/
def depth? (c : Char) : Option Nat :=
  if c.isDigit then some (c.toNat - '0'.toNat) else none

/-- The signs behind the mark, in any order, and the place behind them. A depth is not zero. -/
def blockSigns (cursor : Cursor) : Chomping × Option Nat × Cursor :=
  match cursor.peek?.bind chomping? with
  | some chomping =>
    match cursor.next.peek?.bind depth? with
    | some depth => (chomping, some depth, cursor.next.next)
    | none => (chomping, none, cursor.next)
  | none =>
    match cursor.peek?.bind depth? with
    | some depth =>
      match cursor.next.peek?.bind chomping? with
      | some chomping => (chomping, some depth, cursor.next.next)
      | none => (.clip, some depth, cursor.next)
    | none => (.clip, none, cursor)

/-- The breaks of the blank lines in front of a block whose depth is not given, the deepest column
reached in them, and the place behind them. -/
def leadingLines : (fuel : Nat) → (breaks : List Char) → (deepest : Nat) → Cursor →
    List Char × Nat × Cursor
  | 0, breaks, deepest, cursor => (breaks.reverse, deepest, cursor)
  | fuel + 1, breaks, deepest, cursor =>
    match cursor.rest with
    | [] => (breaks.reverse, deepest, cursor)
    | c :: _ =>
      if c = ' ' then
        leadingLines fuel breaks (max deepest cursor.next.column) cursor.next
      else if isBreak c then leadingLines fuel (c :: breaks) deepest cursor.next
      else (breaks.reverse, deepest, cursor)

/-- The place behind the spaces of an indentation. -/
def dropIndent (indent : Nat) : (fuel : Nat) → Cursor → Cursor
  | 0, cursor => cursor
  | fuel + 1, cursor =>
    if cursor.column < indent && cursor.peek? = some ' ' then dropIndent indent fuel cursor.next
    else cursor

/-- The breaks of blank lines inside a block, behind those that are kept in reverse, and the place
behind them and the next indentation. -/
def blockLines (indent : Nat) : (fuel : Nat) → (breaks : List Char) → Cursor → List Char × Cursor
  | 0, breaks, cursor => (breaks.reverse, cursor)
  | fuel + 1, breaks, cursor =>
    let cursor := dropIndent indent (fuel + 1) cursor
    match cursor.rest with
    | [] => (breaks.reverse, cursor)
    | c :: _ =>
      if isBreak c then blockLines indent fuel (c :: breaks) cursor.next
      else (breaks.reverse, cursor)

/-- Does a line begin with no blank? -/
def unblankFirst (cs : List Char) : Bool :=
  !((cs.head?.map fun c => c = ' ' || c = '\t').getD false)

/-- What a line break inside a block comes to, between a line and the next one. -/
def joint (folded : Bool) (ending breaks : List Char) (unblank : Bool) (next : List Char) :
    List Char :=
  if folded && ending = ['\n'] && unblank && unblankFirst next then
    if breaks.isEmpty then [' '] else []
  else ending

/-- The lines of a block at `indent`, behind a text that is kept in reverse and the breaks in front
of the next line: the text in reverse, the last line's break, the breaks that follow, and the place
behind. -/
def blockBody (folded : Bool) (indent : Nat) : (fuel : Nat) → (text breaks : List Char) → Cursor →
    List Char × List Char × List Char × Cursor
  | 0, text, breaks, cursor => (text, [], breaks, cursor)
  | fuel + 1, text, breaks, cursor =>
    if cursor.column = indent && !cursor.rest.isEmpty then
      let unblank := unblankFirst cursor.rest
      let (line, after) := cursor.takeUntil breakFirst (fuel + 1)
      let text := line.reverseAux (breaks.reverseAux text)
      let ending := (after.peek?.map fun c => [c]).getD []
      let (breaks, after) := blockLines indent (fuel + 1) [] after.next
      if after.column = indent && !after.rest.isEmpty then
        blockBody folded indent fuel
          ((joint folded ending breaks unblank after.rest).reverseAux text) breaks after
      else (text, ending, breaks, after)
    else (text, [], breaks, cursor)

/-- The text of a block from its mark on, inside a block at `outer`, and the place behind. -/
def blockScalar? (outer : Int) (fuel : Nat) (cursor : Cursor) : Option (String × Cursor) := do
  let folded := cursor.peek? = some '>'
  let (chomping, depth, cursor) := blockSigns cursor.next
  if depth = some 0 || !spaceFirst cursor.rest then none
  else
    let cursor ← cursor.restOfLine? fuel
    let least := (max (outer + 1) 1).toNat
    let (indent, breaks, cursor) :=
      match depth with
      | some depth =>
        let indent := least + depth - 1
        let (breaks, cursor) := blockLines indent fuel [] cursor
        (indent, breaks, cursor)
      | none =>
        let (breaks, deepest, cursor) := leadingLines fuel [] 0 cursor
        (max least deepest, breaks, cursor)
    let (text, ending, breaks, cursor) := blockBody folded indent fuel [] breaks cursor
    let tail :=
      match chomping with
      | .strip => []
      | .clip => ending
      | .keep => ending ++ breaks
    return (String.ofList (text.reverse ++ tail), cursor)

end ZeroRun.Document
