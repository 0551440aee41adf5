import ZeroRun.Document.Scalar.Block
import ZeroRun.Document.Scalar.Quoted

/-!
The tokens of a YAML document, and how those with a name are read: anchors and references to them,
tags, and directives in front of a document.
-/
namespace ZeroRun.Document

/-- A tag as it is written: what stands for its beginning, and the rest. -/
structure TagName where
  handle : Option String
  suffix : String
deriving DecidableEq, Repr

/-- A line in front of a document. -/
inductive Directive where
  | version (major minor : Int)
  | tag (handle beginning : String)
  | other
deriving DecidableEq, Repr

/-- A token. The beginning and end of a block is a token without text. -/
inductive Token where
  | directive (content : Directive)
  | documentStart
  | documentEnd
  | sequenceStart
  | mappingStart
  | blockEnd
  | openSequence
  | closeSequence
  | openMapping
  | closeMapping
  | entry
  | comma
  | key
  | value
  | reference (name : String)
  | anchor (name : String)
  | tag (name : TagName)
  | scalar (text : String) (plain : Bool)
  | streamEnd
deriving DecidableEq, Repr

/-- The name behind the mark of an anchor or reference, and the place behind it. -/
def anchorName (fuel : Nat) (cursor : Cursor) : Except Error (String × Cursor) :=
  let (name, cursor) := cursor.next.takeWhile isNameChar fuel
  if !name.isEmpty && firstOrEnd (fun c => isGap c || "?:,]\x7d%@`".toList.contains c) cursor.rest
  then .ok (String.ofList name, cursor)
  else .error .unreadable

/-- A character of a tag that stands for itself. -/
def isTagChar (c : Char) : Bool :=
  c.isAlphanum || "-;/?:@&=+$,_.!~*'()[]".toList.contains c

/-- A row of bytes in hexadecimal digits, each behind a percent sign, and the place behind. -/
def codedBytes : (fuel : Nat) → (bytes : List UInt8) → Cursor → Except Error (List UInt8 × Cursor)
  | 0, _, _ => .error .unreadable
  | fuel + 1, bytes, cursor =>
    if cursor.peek? = some '%' then
      match hexCode? 2 cursor.next.rest with
      | some code => codedBytes fuel (UInt8.ofNat code :: bytes) (cursor.forward 3)
      | none => .error .unreadable
    else .ok (bytes.reverse, cursor)

/-- The characters that bytes stand for. -/
def charactersOf (bytes : List UInt8) : Except Error (List Char) :=
  match String.fromUTF8? ⟨bytes.toArray⟩ with
  | some s => .ok s.toList
  | none => .error .unreadable

/-- The rest of a tag's name behind what is kept in reverse, and the place behind it. -/
def tagRest : (fuel : Nat) → (kept : List Char) → Cursor → Except Error (List Char × Cursor)
  | 0, _, _ => .error .unreadable
  | fuel + 1, kept, cursor =>
    match cursor.peek? with
    | some c =>
      if isTagChar c then tagRest fuel (c :: kept) cursor.next
      else if c = '%' then do
        let (bytes, cursor) ← codedBytes (fuel + 1) [] cursor
        tagRest fuel ((← charactersOf bytes).reverseAux kept) cursor
      else .ok (kept.reverse, cursor)
    | none => .ok (kept.reverse, cursor)

/-- The rest of a tag's name, of which something has to be there, and the place behind it. -/
def tagSuffix (fuel : Nat) (cursor : Cursor) : Except Error (String × Cursor) := do
  let (name, after) ← tagRest (fuel + 1) [] cursor
  if after.index = cursor.index then .error .unreadable else return (String.ofList name, after)

/-- The handle of a tag: an exclamation mark, alone or with another one and a name between them. -/
def tagHandle (fuel : Nat) (cursor : Cursor) : Except Error (String × Cursor) :=
  if cursor.peek? ≠ some '!' then .error .unreadable
  else if cursor.next.peek? = some ' ' then .ok ("!", cursor.next)
  else
    let (name, after) := cursor.next.takeWhile isNameChar fuel
    if after.peek? = some '!' then .ok (String.ofList ('!' :: name ++ ['!']), after.next)
    else .error .unreadable

/-- Does a tag's text, up to the next space or line break, hold another exclamation mark? -/
def hasHandle (cs : List Char) : Bool :=
  (cs.takeWhile fun c => !(c = ' ' || isBreak c)).contains '!'

/-- A tag from its mark on, and the place behind it. -/
def tagName (fuel : Nat) (cursor : Cursor) : Except Error (TagName × Cursor) := do
  let (name, cursor) ←
    if cursor.next.peek? = some '<' then do
      let (suffix, cursor) ← tagSuffix fuel cursor.next.next
      if cursor.peek? = some '>' then pure (⟨none, suffix⟩, cursor.next)
      else .error .unreadable
    else if gapFirst cursor.next.rest then pure (⟨none, "!"⟩, cursor.next)
    else if hasHandle cursor.next.rest then do
      let (handle, cursor) ← tagHandle fuel cursor
      let (suffix, cursor) ← tagSuffix fuel cursor
      pure ((⟨some handle, suffix⟩ : TagName), cursor)
    else do
      let (suffix, cursor) ← tagSuffix fuel cursor.next
      pure (⟨some "!", suffix⟩, cursor)
  if spaceFirst cursor.rest then return (name, cursor) else .error .unreadable

/-- A number in a version, and the place behind it. -/
def versionNumber (fuel : Nat) (cursor : Cursor) : Except Error (Int × Cursor) :=
  let (digits, cursor) := cursor.takeWhile Char.isDigit fuel
  match Decimal.readWhole 10 digits with
  | .ok n => .ok (n, cursor)
  | .error .malformed => .error .unreadable
  | .error (.tooManyDigits count) => .error (.scalar (.number (.tooManyDigits count)))

/-- A version: two numbers with a point between them. -/
def versionOf (fuel : Nat) (cursor : Cursor) : Except Error (Directive × Cursor) := do
  let (major, cursor) ← versionNumber fuel (cursor.dropSpaces fuel)
  if cursor.peek? ≠ some '.' then .error .unreadable
  else
    let (minor, cursor) ← versionNumber fuel cursor.next
    if spaceFirst cursor.rest then return (.version major minor, cursor) else .error .unreadable

/-- What a handle of tags stands for. -/
def tagDirective (fuel : Nat) (cursor : Cursor) : Except Error (Directive × Cursor) := do
  let (handle, cursor) ← tagHandle fuel (cursor.dropSpaces fuel)
  if cursor.peek? ≠ some ' ' then .error .unreadable
  else
    let (beginning, cursor) ← tagSuffix fuel (cursor.dropSpaces fuel)
    if spaceFirst cursor.rest then return (.tag handle beginning, cursor) else .error .unreadable

/-- A directive from its mark on, and the place behind its line. Of an unknown one only the name is
looked at. -/
def directive (fuel : Nat) (cursor : Cursor) : Except Error (Directive × Cursor) := do
  let (name, cursor) := cursor.next.takeWhile isNameChar fuel
  if name.isEmpty || !spaceFirst cursor.rest then .error .unreadable
  else
    let (content, cursor) ←
      match String.ofList name with
      | "YAML" => versionOf fuel cursor
      | "TAG" => tagDirective fuel cursor
      | _ => pure (.other, cursor.dropWhile (fun c => !isBreak c) fuel)
    match cursor.restOfLine? fuel with
    | some cursor => return (content, cursor)
    | none => .error .unreadable

end ZeroRun.Document
