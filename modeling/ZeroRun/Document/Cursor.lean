/-!
A place in the text of a document: what is still to be read, and how far from the beginning, in
which line and in which column it stands. Everything that walks over characters takes a number of
them as fuel; the length of the text is always enough.
-/
namespace ZeroRun.Document

/-- Is it a line break? -/
def isBreak (c : Char) : Bool :=
  c = '\n' || c = '\u2028' || c = '\u2029'

/-- Is it a space, a tab or a line break? -/
def isGap (c : Char) : Bool :=
  c = ' ' || c = '\t' || isBreak c

/-- Does a character of a class come first, or the end of the text? -/
def firstOrEnd (p : Char → Bool) : List Char → Bool
  | [] => true
  | c :: _ => p c

/-- Does a gap, or the end of the text, come first? -/
def gapFirst : List Char → Bool :=
  firstOrEnd isGap

/-- Does a space, a line break or the end of the text come first? -/
def spaceFirst : List Char → Bool :=
  firstOrEnd fun c => c = ' ' || isBreak c

/-- Does a line break, or the end of the text, come first? -/
def breakFirst : List Char → Bool :=
  firstOrEnd isBreak

/-- One kind of line break for all, in front of the characters that are kept in reverse: a carriage
return, alone or in front of a line feed, and the control character for a next line are line
feeds. -/
def unifyBreaksOnto (kept : List Char) : List Char → List Char
  | [] => kept.reverse
  | '\r' :: '\n' :: cs => unifyBreaksOnto ('\n' :: kept) cs
  | c :: cs => unifyBreaksOnto ((if c = '\r' || c = '\u0085' then '\n' else c) :: kept) cs

/-- One kind of line break for all. -/
def unifyBreaks (cs : List Char) : List Char :=
  unifyBreaksOnto [] cs

/-- May the character stand in a document? -/
def isAdmitted (c : Char) : Bool :=
  let n := c.toNat
  n = 0x09 || n = 0x0a || n = 0x0d || (0x20 ≤ n && n ≤ 0x7e) || n = 0x85
    || (0xa0 ≤ n && n ≤ 0xfffd) || 0x10000 ≤ n

/-- Does a document mark, three times the same character, begin here? -/
def markFirst (mark : Char) : List Char → Bool
  | a :: b :: c :: rest => a = mark && b = mark && c = mark && gapFirst rest
  | _ => false

/-- Does the mark of a document's beginning or end begin here? -/
def anyMarkFirst (cs : List Char) : Bool :=
  markFirst '-' cs || markFirst '.' cs

/-- A letter, digit, hyphen or underscore, as in names. -/
def isNameChar (c : Char) : Bool :=
  c.isAlphanum || c = '-' || c = '_'

/-- A place in a text. -/
structure Cursor where
  rest : List Char
  index : Nat := 0
  line : Nat := 0
  column : Nat := 0

namespace Cursor

/-- The next character. -/
def peek? (cursor : Cursor) : Option Char :=
  cursor.rest.head?

/-- The place behind one more character. A byte order mark takes no column. -/
def next (cursor : Cursor) : Cursor :=
  match cursor.rest with
  | [] => cursor
  | c :: cs =>
    if isBreak c then
      { rest := cs, index := cursor.index + 1, line := cursor.line + 1, column := 0 }
    else
      { cursor with
        rest := cs
        index := cursor.index + 1
        column := if c = '\ufeff' then cursor.column else cursor.column + 1 }

/-- The place behind a number of characters. -/
def forward : (count : Nat) → Cursor → Cursor
  | 0, cursor => cursor
  | count + 1, cursor => forward count cursor.next

/-- Characters up to a place where `stop` holds of what is left, behind those that are kept in
reverse. -/
def takeOnto (stop : List Char → Bool) : (fuel : Nat) → (kept : List Char) → Cursor →
    List Char × Cursor
  | 0, kept, cursor => (kept.reverse, cursor)
  | fuel + 1, kept, cursor =>
    match cursor.rest with
    | [] => (kept.reverse, cursor)
    | c :: _ =>
      if stop cursor.rest then (kept.reverse, cursor) else takeOnto stop fuel (c :: kept) cursor.next

/-- The characters up to a place where `stop` holds of what is left. -/
def takeUntil (stop : List Char → Bool) (fuel : Nat) (cursor : Cursor) : List Char × Cursor :=
  takeOnto stop fuel [] cursor

/-- The characters of a class that come first. -/
def takeWhile (p : Char → Bool) (fuel : Nat) (cursor : Cursor) : List Char × Cursor :=
  cursor.takeUntil (firstOrEnd fun c => !p c) fuel

/-- The place behind all characters of a class that come first. -/
def dropWhile (p : Char → Bool) (fuel : Nat) (cursor : Cursor) : Cursor :=
  (cursor.takeWhile p fuel).2

/-- The place behind the spaces. -/
def dropSpaces (fuel : Nat) (cursor : Cursor) : Cursor :=
  cursor.dropWhile (· = ' ') fuel

/-- The place behind spaces and a comment, at the end of a line. -/
def dropComment (fuel : Nat) (cursor : Cursor) : Cursor :=
  let cursor := cursor.dropSpaces fuel
  if cursor.peek? = some '#' then cursor.dropWhile (fun c => !isBreak c) fuel else cursor

/-- Is the place in front of a line break? -/
def atBreak (cursor : Cursor) : Bool :=
  (cursor.peek?.map isBreak).getD false

/-- The place behind the rest of a line that holds nothing but spaces and a comment. -/
def restOfLine? (fuel : Nat) (cursor : Cursor) : Option Cursor :=
  let cursor := cursor.dropComment fuel
  if breakFirst cursor.rest then some cursor.next else none

/-- The place of the next token, behind spaces, line breaks and comments, and whether a line has
been broken. -/
def toToken : (fuel : Nat) → (broken : Bool) → Cursor → Cursor × Bool
  | 0, broken, cursor => (cursor, broken)
  | fuel + 1, broken, cursor =>
    let cursor := cursor.dropComment (fuel + 1)
    if cursor.atBreak then toToken fuel true cursor.next else (cursor, broken)

end Cursor
end ZeroRun.Document
