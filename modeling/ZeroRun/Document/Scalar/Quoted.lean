import ZeroRun.Document.Scalar.Plain
import ZeroRun.Error

/-!
Scalars in quotes. Between single quotes only the quote itself is written in a special way, twice;
between double quotes a backslash begins an escape. Line breaks are folded as in scalars without
quotes, and no document mark may begin a line.
-/
namespace ZeroRun.Document

/-- The breaks of blank lines inside quotes, behind those that are kept in reverse, and the place
behind them. -/
def blankLines : (fuel : Nat) → (breaks : List Char) → Cursor → Except Error (List Char × Cursor)
  | 0, breaks, cursor => .ok (breaks.reverse, cursor)
  | fuel + 1, breaks, cursor =>
    if anyMarkFirst cursor.rest then .error .unreadable
    else
      let cursor := cursor.dropWhile (fun c => c = ' ' || c = '\t') (fuel + 1)
      match cursor.rest with
      | [] => .ok (breaks.reverse, cursor)
      | c :: _ =>
        if isBreak c then blankLines fuel (c :: breaks) cursor.next
        else .ok (breaks.reverse, cursor)

/-- The character that a backslash and a letter stand for. -/
def escape? : Char → Option Char
  | '0' => some '\x00'
  | 'a' => some '\x07'
  | 'b' => some '\x08'
  | 't' => some '\t'
  | '\t' => some '\t'
  | 'n' => some '\n'
  | 'v' => some '\x0b'
  | 'f' => some '\x0c'
  | 'r' => some '\r'
  | 'e' => some '\x1b'
  | ' ' => some ' '
  | '"' => some '"'
  | '\\' => some '\\'
  | '/' => some '/'
  | 'N' => some '\u0085'
  | '_' => some '\u00a0'
  | 'L' => some '\u2028'
  | 'P' => some '\u2029'
  | _ => none

/-- The number of hexadecimal digits behind a letter. -/
def escapeWidth? : Char → Option Nat
  | 'x' => some 2
  | 'u' => some 4
  | 'U' => some 8
  | _ => none

/-- The code in a number of hexadecimal digits. -/
def hexCode? (width : Nat) (cs : List Char) : Option Nat :=
  let digits := cs.take width
  if digits.length = width && digits.all fun c => (Decimal.digitOf? 16 c).isSome then
    some (Decimal.digitsTo 16 digits)
  else none

/-- The character with a code of a given width. Codes beyond the last character have none. -/
def coded (width : Nat) (cs : List Char) : Except Error Char :=
  match hexCode? width cs with
  | none => .error .unreadable
  | some code =>
    if code < 0x110000 then .ok (Text.characterOf code)
    else if code < 0x80000000 then .error (.scalar .beyondUnicode)
    else .error (.scalar .beyondWord)

/-- What an escape behind a backslash stands for, and the place behind it. -/
def escaped (fuel : Nat) (cursor : Cursor) : Except Error (List Char × Cursor) :=
  match cursor.peek? with
  | none => .error .unreadable
  | some c =>
    if isBreak c then blankLines fuel [] cursor.next
    else
      match escape? c, escapeWidth? c with
      | some character, _ => .ok ([character], cursor.next)
      | none, some width => do
        let character ← coded width cursor.next.rest
        return ([character], cursor.next.forward width)
      | none, none => .error .unreadable

/-- What a gap inside quotes comes to: it is kept unless a line is broken in it. -/
def quotedGap (fuel : Nat) (cursor : Cursor) : Except Error (List Char × Cursor) :=
  let (spaces, cursor) := cursor.takeWhile (fun c => c = ' ' || c = '\t') fuel
  match cursor.peek? with
  | none => .error .unreadable
  | some c =>
    if isBreak c then do
      let (breaks, cursor) ← blankLines fuel [] cursor.next
      return (fold c breaks, cursor)
    else .ok (spaces, cursor)

/-- The text inside quotes behind a text that is kept in reverse, and the place behind the closing
quote. -/
def quotedOnto (quote : Char) : (fuel : Nat) → (text : List Char) → Cursor →
    Except Error (List Char × Cursor)
  | 0, _, _ => .error .unreadable
  | fuel + 1, text, cursor =>
    match cursor.rest with
    | [] => .error .unreadable
    | c :: cs =>
      if isGap c then do
        let (gap, cursor) ← quotedGap (fuel + 1) cursor
        quotedOnto quote fuel (gap.reverseAux text) cursor
      else if c = quote then
        if quote = '\'' && cs.head? = some '\'' then
          quotedOnto quote fuel ('\'' :: text) cursor.next.next
        else .ok (text.reverse, cursor.next)
      else if quote = '"' && c = '\\' then do
        let (characters, cursor) ← escaped (fuel + 1) cursor.next
        quotedOnto quote fuel (characters.reverseAux text) cursor
      else quotedOnto quote fuel (c :: text) cursor.next

/-- The text inside quotes, from the opening quote on, and the place behind the closing one. -/
def quotedScalar (fuel : Nat) (cursor : Cursor) : Except Error (String × Cursor) := do
  let quote := cursor.peek?.getD '"'
  let (text, cursor) ← quotedOnto quote fuel [] cursor.next
  return (String.ofList text, cursor)

end ZeroRun.Document
