import ZeroRun.Document.Token

/-!
The tokens of a text, one after the other. Indentation opens and closes blocks, for which tokens
without text are put in. That something is a key shows only at the mark of its value, which has to
follow in the same line and not too far away; the token for the key is then put in front of it.

A text that breaks off with an error still gives the tokens in front of the error that are settled,
that is, of which it is known whether they begin a key.
-/
namespace ZeroRun.Document

/-- The greatest distance from the beginning of a key to the mark of its value. -/
def keyReach : Nat := 1024

/-- A place where a key may have begun. -/
structure PossibleKey where
  /-- The number of the token that it would stand in front of. -/
  number : Nat
  /-- Is the text no document unless it is a key? -/
  required : Bool
  place : Cursor

/-- A text that has been read in part. -/
structure TokenStream where
  cursor : Cursor
  tokens : Array Token := #[]
  /-- The number of flow collections around the place. -/
  flow : Nat := 0
  /-- The column of the innermost block. -/
  indent : Int := -1
  /-- The columns of the blocks around it, from the inside out. -/
  outer : List Int := []
  keyAllowed : Bool := true
  /-- At most one possible key for each depth of flow collections. -/
  keys : List (Nat × PossibleKey) := []
  finished : Bool := false

namespace TokenStream
variable (stream : TokenStream)

/-- Adds a token and moves on. -/
def push (token : Token) (cursor : Cursor) : TokenStream :=
  { stream with tokens := stream.tokens.push token, cursor }

/-- Adds a token of so many characters and moves on. -/
def mark (token : Token) (length : Nat := 1) : TokenStream :=
  stream.push token (stream.cursor.forward length)

/-- Can the possible key still become one? -/
def isFresh (key : PossibleKey) : Bool :=
  key.place.line = stream.cursor.line && stream.cursor.index ≤ key.place.index + keyReach

/-- Gives up the keys that have become impossible. -/
def dropStaleKeys : Except Error TokenStream :=
  if stream.keys.all fun (_, key) => stream.isFresh key then .ok stream
  else if stream.keys.any fun (_, key) => key.required && !stream.isFresh key then
    .error .unreadable
  else .ok { stream with keys := stream.keys.filter fun (_, key) => stream.isFresh key }

/-- Gives up the possible key at this depth of flow collections. -/
def dropKey : Except Error TokenStream :=
  match stream.keys.lookup stream.flow with
  | none => .ok stream
  | some key =>
    if key.required then .error .unreadable
    else .ok { stream with keys := stream.keys.filter fun (level, _) => level ≠ stream.flow }

/-- Keeps the place in mind as one where a key may begin. -/
def noteKey : Except Error TokenStream :=
  if stream.keyAllowed then do
    let stream ← stream.dropKey
    let key : PossibleKey :=
      { number := stream.tokens.size
        required := stream.flow = 0 && stream.indent = stream.cursor.column
        place := stream.cursor }
    return { stream with keys := (stream.flow, key) :: stream.keys }
  else .ok stream

/-- Closes blocks until the innermost one stands no deeper than a column. -/
def unwindWithin (column : Int) : (outer : List Int) → TokenStream → TokenStream
  | [], stream => stream
  | indent :: outer, stream =>
    if column < stream.indent then
      unwindWithin column outer
        { stream with tokens := stream.tokens.push .blockEnd, indent, outer }
    else stream

/-- Closes the blocks deeper than a column. Flow collections take no notice of columns. -/
def unwind (column : Int) : TokenStream :=
  if stream.flow = 0 then unwindWithin column stream.outer stream else stream

/-- Opens a block at a column, unless there is one at least as deep; its token is put in front of
the token with a number. -/
def openBlock (column number : Nat) (token : Token) : TokenStream :=
  if stream.flow = 0 && stream.indent < column then
    { stream with
      tokens := stream.tokens.insertIdxIfInBounds number token
      indent := column
      outer := stream.indent :: stream.outer }
  else stream

/-- A mark that opens a flow collection, which may begin a key. -/
def fetchOpening (token : Token) : Except Error TokenStream := do
  let stream ← stream.noteKey
  return { stream.mark token with flow := stream.flow + 1, keyAllowed := true }

/-- A mark that closes a flow collection. -/
def fetchClosing (token : Token) : Except Error TokenStream := do
  let stream ← stream.dropKey
  return { stream.mark token with flow := stream.flow - 1, keyAllowed := false }

/-- A comma in a flow collection. -/
def fetchComma : Except Error TokenStream := do
  let stream ← stream.dropKey
  return { stream.mark .comma with keyAllowed := true }

/-- The mark of a list entry, which may open a block. -/
def fetchEntry : Except Error TokenStream := do
  if stream.flow = 0 && !stream.keyAllowed then .error .unreadable
  else
    let stream := stream.openBlock stream.cursor.column stream.tokens.size .sequenceStart
    let stream ← stream.dropKey
    return { stream.mark .entry with keyAllowed := true }

/-- The mark of a key, which may open a block. -/
def fetchKey : Except Error TokenStream := do
  if stream.flow = 0 && !stream.keyAllowed then .error .unreadable
  else
    let stream := stream.openBlock stream.cursor.column stream.tokens.size .mappingStart
    let stream ← stream.dropKey
    return { stream.mark .key with keyAllowed := stream.flow = 0 }

/-- The mark of a value. What the possible key at this depth began is a key, and may open a block;
without one the value belongs to a key that was marked. -/
def fetchValue : Except Error TokenStream := do
  match stream.keys.lookup stream.flow with
  | some key =>
    let stream :=
      { stream with
        keys := stream.keys.filter fun (level, _) => level ≠ stream.flow
        tokens := stream.tokens.insertIdxIfInBounds key.number .key
        keyAllowed := false }
    return (stream.openBlock key.place.column key.number .mappingStart).mark .value
  | none =>
    if stream.flow = 0 && !stream.keyAllowed then .error .unreadable
    else
      let stream := stream.openBlock stream.cursor.column stream.tokens.size .mappingStart
      let stream ← stream.dropKey
      return { stream.mark .value with keyAllowed := stream.flow = 0 }

/-- A token with text that may begin a key. -/
def fetchText (read : Cursor → Except Error (Token × Cursor)) : Except Error TokenStream := do
  let stream ← stream.noteKey
  let (token, cursor) ← read stream.cursor
  return { stream.push token cursor with keyAllowed := false }

/-- An unquoted scalar. Behind a line break another key may begin. -/
def fetchPlain (fuel : Nat) : Except Error TokenStream := do
  let stream ← stream.noteKey
  let (text, cursor, broken) := plainScalar (stream.flow ≠ 0) stream.indent fuel stream.cursor
  return { stream.push (.scalar text true) cursor with keyAllowed := broken }

/-- A scalar that is a block of lines. -/
def fetchBlock (fuel : Nat) : Except Error TokenStream := do
  let stream ← stream.dropKey
  match blockScalar? stream.indent fuel stream.cursor with
  | some (text, cursor) =>
    return { stream.push (.scalar text false) cursor with keyAllowed := true }
  | none => .error .unreadable

/-- A mark or line at the edge of a document, where all blocks end. -/
def fetchEdge (read : Cursor → Except Error (Token × Cursor)) : Except Error TokenStream := do
  let stream ← (stream.unwind (-1)).dropKey
  let (token, cursor) ← read stream.cursor
  return { stream.push token cursor with keyAllowed := false }

/-- The end of the text. -/
def fetchEnd : Except Error TokenStream := do
  let stream ← (stream.unwind (-1)).dropKey
  return { stream.push .streamEnd stream.cursor with keys := [], keyAllowed := false, finished := true }

/-- The token that begins with a character. -/
def fetchFrom (fuel : Nat) (c : Char) : Except Error TokenStream :=
  let flow := stream.flow ≠ 0
  let edge := stream.cursor.column = 0
  let rest := stream.cursor.rest
  let separate := gapFirst (rest.drop 1)
  if edge && c = '%' then
    stream.fetchEdge fun cursor => do
      let (content, cursor) ← directive fuel cursor
      return (.directive content, cursor)
  else if edge && markFirst '-' rest then
    stream.fetchEdge fun cursor => .ok (.documentStart, cursor.forward 3)
  else if edge && markFirst '.' rest then
    stream.fetchEdge fun cursor => .ok (.documentEnd, cursor.forward 3)
  else if c = '[' then stream.fetchOpening .openSequence
  else if c = '\x7b' then stream.fetchOpening .openMapping
  else if c = ']' then stream.fetchClosing .closeSequence
  else if c = '\x7d' then stream.fetchClosing .closeMapping
  else if c = ',' then stream.fetchComma
  else if c = '-' && separate then stream.fetchEntry
  else if c = '?' && (flow || separate) then stream.fetchKey
  else if c = ':' && (flow || separate) then stream.fetchValue
  else if c = '*' then
    stream.fetchText fun cursor => do
      let (name, cursor) ← anchorName fuel cursor
      return (.reference name, cursor)
  else if c = '&' then
    stream.fetchText fun cursor => do
      let (name, cursor) ← anchorName fuel cursor
      return (.anchor name, cursor)
  else if c = '!' then
    stream.fetchText fun cursor => do
      let (name, cursor) ← tagName fuel cursor
      return (.tag name, cursor)
  else if (c = '|' || c = '>') && !flow then stream.fetchBlock fuel
  else if c = '\'' || c = '"' then
    stream.fetchText fun cursor => do
      let (text, cursor) ← quotedScalar fuel cursor
      return (.scalar text false, cursor)
  else if plainFirst flow rest then stream.fetchPlain fuel
  else .error .unreadable

/-- One more token, with the tokens of the blocks that end or begin with it. -/
def fetch (fuel : Nat) : Except Error TokenStream := do
  let (cursor, broken) := stream.cursor.toToken fuel false
  let stream :=
    { stream with cursor, keyAllowed := stream.keyAllowed || (broken && stream.flow = 0) }
  let stream := (← stream.dropStaleKeys).unwind cursor.column
  match cursor.peek? with
  | none => stream.fetchEnd
  | some c => stream.fetchFrom fuel c

/-- The tokens of which it is known whether they begin a key. -/
def settled : List Token :=
  let pending := (stream.keys.filter fun (_, key) => stream.isFresh key).map fun (_, key) => key.number
  (stream.tokens.extract 0 (pending.foldl min stream.tokens.size)).toList

/-- The tokens up to the end of the text, or up to an error. -/
def toEnd (reach : Nat) : (fuel : Nat) → TokenStream → List Token × Option Error
  | 0, stream => (stream.settled, some .unreadable)
  | fuel + 1, stream =>
    if stream.finished then (stream.tokens.toList, none)
    else
      match stream.fetch reach with
      | .ok stream => toEnd reach fuel stream
      | .error e => (stream.settled, some e)

end TokenStream

/-- The place at the beginning of a text, behind a byte order mark. -/
def Cursor.start (text : List Char) : Cursor :=
  match text with
  | '\ufeff' :: cs => { rest := cs, index := 1 }
  | cs => { rest := cs }

/-- The tokens of a text, and the error with which they break off. A text with characters that
cannot be shown has none. -/
def tokensOf (text : String) : List Token × Option Error :=
  if text.toList.all isAdmitted then
    let characters := unifyBreaks text.toList
    TokenStream.toEnd (characters.length + 1) (characters.length + 2)
      { cursor := Cursor.start characters }
  else ([], some .unreadable)

end ZeroRun.Document
