import ZeroRun.Document.Tag
import ZeroRun.Document.TokenStream

/-!
The nodes of a document. Every node has a number, by which collections hold their members; a
reference to an anchor gives the number of the node that carries it, so that a collection may be a
member of itself.

A node is read from the tokens by descent. A node in a block may have members in blocks, a node in
a flow collection has members between brackets only.
-/
namespace ZeroRun.Document

/-- A node with the numbers of its members. -/
inductive Node where
  | scalar (tag : Tag) (text : String)
  | sequence (tag : Tag) (items : List Nat)
  | mapping (tag : Tag) (entries : List (Nat × Nat))

/-- The kind of a node. -/
def Node.tag : Node → Tag
  | .scalar tag _ | .sequence tag _ | .mapping tag _ => tag

/-- The node with another kind. -/
def Node.withTag (node : Node) (tag : Tag) : Node :=
  match node with
  | .scalar _ text => .scalar tag text
  | .sequence _ items => .sequence tag items
  | .mapping _ entries => .mapping tag entries

/-- What is known while the tokens of a document are read. -/
structure Reading where
  tokens : List Token
  /-- What happens when the tokens are used up. -/
  ending : Error
  handles : List (String × String) := []
  anchors : List (String × Nat) := []
  nodes : Array Node := #[]

/-- A reader of tokens. -/
abbrev Reader := StateT Reading (Except Error)

/-- The token that comes next. -/
def peekToken : Reader Token := do
  let reading ← get
  match reading.tokens with
  | token :: _ => return token
  | [] => throw reading.ending

/-- Moves behind the next token. -/
def dropToken : Reader Unit :=
  modify fun reading => { reading with tokens := reading.tokens.drop 1 }

/-- Moves behind the next token if it is the given one, and tells whether it was. -/
def dropIf (token : Token) : Reader Bool := do
  if (← peekToken) = token then
    dropToken
    return true
  else return false

/-- Does one of the tokens come next? -/
def nextIn (tokens : List Token) : Reader Bool :=
  return tokens.contains (← peekToken)

/-- Adds a node and gives it a number. -/
def addNode (node : Node) : Reader Nat := do
  let reading ← get
  set { reading with nodes := reading.nodes.push node }
  return reading.nodes.size

/-- Puts a node in the place of the one with a number. -/
def setNode (number : Nat) (node : Node) : Reader Unit :=
  modify fun reading => { reading with nodes := reading.nodes.setIfInBounds number node }

/-- Ties an anchor, if there is one, to a node. No two nodes may have the same. -/
def tieAnchor (anchor : Option String) (number : Nat) : Reader Unit := do
  match anchor with
  | none => return ()
  | some name =>
    let reading ← get
    if (reading.anchors.lookup name).isSome then throw .unreadable
    else set { reading with anchors := (name, number) :: reading.anchors }

/-- The node that is left out. -/
def emptyNode : Reader Nat :=
  addNode (.scalar .null "")

/-- The anchor and the tag in front of a node, in any order. -/
def properties : Reader (Option String × Option TagName) := do
  match ← peekToken with
  | .anchor name =>
    dropToken
    match ← peekToken with
    | .tag tag =>
      dropToken
      return (some name, some tag)
    | _ => return (some name, none)
  | .tag tag =>
    dropToken
    match ← peekToken with
    | .anchor name =>
      dropToken
      return (some name, some tag)
    | _ => return (none, some tag)
  | _ => return (none, none)

/-- The full name of a tag, and `none` where it is left open. -/
def fullName (name : Option TagName) : Reader (Option String) := do
  match name with
  | none => return none
  | some ⟨none, suffix⟩ => return if suffix = "!" then none else some suffix
  | some ⟨some handle, suffix⟩ =>
    match (← get).handles.lookup handle with
    | some beginning =>
      let full := beginning ++ suffix
      return if full = "!" then none else some full
    | none => throw .unreadable

/-- The kind of a scalar. Where its tag is left open on purpose, quotes do not count. -/
def scalarTag (written : Option TagName) (full : Option String) (text : String) (plain : Bool) :
    Tag :=
  match full with
  | some name => Tag.ofName name
  | none => if plain || written.isSome then Tag.ofForm text else .str

/-- Moves behind the comma in front of a member that is not the first one. -/
def dropComma (first : Bool) : Reader Unit := do
  if first then return ()
  else if ← dropIf .comma then return ()
  else throw .unreadable

mutual

/-- A node, in a block or a flow collection. As the value or key of a mapping, a list may stand in
the column of the mapping. -/
def readNode (block sameColumn : Bool) : (fuel : Nat) → Reader Nat
  | 0 => throw .unreadable
  | fuel + 1 => do
    match ← peekToken with
    | .reference name =>
      dropToken
      match (← get).anchors.lookup name with
      | some number => return number
      | none => throw .unreadable
    | _ =>
      let (anchor, written) ← properties
      let full ← fullName written
      let kind (default : Tag) : Tag := (full.map Tag.ofName).getD default
      let sequence (items : Reader (List Nat)) : Reader Nat := do
        let number ← addNode (.sequence (kind .seq) [])
        tieAnchor anchor number
        setNode number (.sequence (kind .seq) (← items))
        return number
      let mapping (entries : Reader (List (Nat × Nat))) : Reader Nat := do
        let number ← addNode (.mapping (kind .map) [])
        tieAnchor anchor number
        setNode number (.mapping (kind .map) (← entries))
        return number
      match ← peekToken with
      | .scalar text plain =>
        dropToken
        let number ← addNode (.scalar (scalarTag written full text plain) text)
        tieAnchor anchor number
        return number
      | .openSequence =>
        sequence do
          dropToken
          flowItems true fuel []
      | .openMapping =>
        mapping do
          dropToken
          flowEntries true fuel []
      | .entry =>
        if sameColumn then sequence (columnItems fuel [])
        else emptyContent anchor written full
      | .sequenceStart =>
        if block then
          sequence do
            dropToken
            blockItems fuel []
        else emptyContent anchor written full
      | .mappingStart =>
        if block then
          mapping do
            dropToken
            blockEntries fuel []
        else emptyContent anchor written full
      | _ => emptyContent anchor written full

/-- A node without content, which has to have an anchor or a tag. -/
def emptyContent (anchor : Option String) (written : Option TagName) (full : Option String) :
    Reader Nat := do
  if anchor.isNone && written.isNone then throw .unreadable
  else
    let number ← addNode (.scalar (scalarTag written full "" true) "")
    tieAnchor anchor number
    return number

/-- The items of a block list, behind those that are kept in reverse. -/
def blockItems : (fuel : Nat) → (items : List Nat) → Reader (List Nat)
  | 0, _ => throw .unreadable
  | fuel + 1, items => do
    if ← dropIf .entry then
      let item ←
        if ← nextIn [.entry, .blockEnd] then emptyNode else readNode true false fuel
      blockItems fuel (item :: items)
    else if ← dropIf .blockEnd then return items.reverse
    else throw .unreadable

/-- The items of a list in the column of its mapping, behind those that are kept in reverse. -/
def columnItems : (fuel : Nat) → (items : List Nat) → Reader (List Nat)
  | 0, _ => throw .unreadable
  | fuel + 1, items => do
    if ← dropIf .entry then
      let item ←
        if ← nextIn [.entry, .key, .value, .blockEnd] then emptyNode else readNode true false fuel
      columnItems fuel (item :: items)
    else return items.reverse

/-- The entries of a block mapping, behind those that are kept in reverse. -/
def blockEntries : (fuel : Nat) → (entries : List (Nat × Nat)) → Reader (List (Nat × Nat))
  | 0, _ => throw .unreadable
  | fuel + 1, entries => do
    if ← dropIf .key then
      let key ← blockMember fuel
      let value ← if ← dropIf .value then blockMember fuel else emptyNode
      blockEntries fuel ((key, value) :: entries)
    else if ← dropIf .blockEnd then return entries.reverse
    else throw .unreadable

/-- A key or value of a block mapping, which may be left out. -/
def blockMember : (fuel : Nat) → Reader Nat
  | 0 => throw .unreadable
  | fuel + 1 => do
    if ← nextIn [.key, .value, .blockEnd] then emptyNode else readNode true true fuel

/-- The items of a list between brackets, behind those that are kept in reverse. An item may be a
mapping with a single entry. -/
def flowItems (first : Bool) : (fuel : Nat) → (items : List Nat) → Reader (List Nat)
  | 0, _ => throw .unreadable
  | fuel + 1, items => do
    if ← dropIf .closeSequence then return items.reverse
    dropComma first
    if ← dropIf .closeSequence then return items.reverse
    else
      let item ←
        if ← dropIf .key then do
          let number ← addNode (.mapping .map [])
          let entry ← flowEntry .closeSequence fuel
          setNode number (.mapping .map [entry])
          pure number
        else readNode false false fuel
      flowItems false fuel (item :: items)

/-- The entries of a mapping between braces, behind those that are kept in reverse. A node that is
no key has an empty value. -/
def flowEntries (first : Bool) : (fuel : Nat) → (entries : List (Nat × Nat)) →
    Reader (List (Nat × Nat))
  | 0, _ => throw .unreadable
  | fuel + 1, entries => do
    if ← dropIf .closeMapping then return entries.reverse
    dropComma first
    if ← dropIf .closeMapping then return entries.reverse
    else
      let entry ←
        if ← dropIf .key then flowEntry .closeMapping fuel
        else do
          let key ← readNode false false fuel
          pure (key, ← emptyNode)
      flowEntries false fuel (entry :: entries)

/-- A key and its value in a flow collection with a closing mark; either may be left out. -/
def flowEntry (closing : Token) : (fuel : Nat) → Reader (Nat × Nat)
  | 0 => throw .unreadable
  | fuel + 1 => do
    let key ← flowMember [.value, .comma, closing] fuel
    if ← dropIf .value then return (key, ← flowMember [.comma, closing] fuel)
    else return (key, ← emptyNode)

/-- A key or value in a flow collection, which is left out in front of some tokens. -/
def flowMember (ends : List Token) : (fuel : Nat) → Reader Nat
  | 0 => throw .unreadable
  | fuel + 1 => do
    if ← nextIn ends then emptyNode else readNode false false fuel

end

/-- What handles of tags stand for unless a document says otherwise. -/
def defaultHandles : List (String × String) :=
  [("!", "!"), ("!!", tagBeginning)]

/-- The directives in front of a document: at most one version, and each handle once. -/
def readDirectives : (fuel : Nat) → (versioned : Bool) → Reader Unit
  | 0, _ => throw .unreadable
  | fuel + 1, versioned => do
    match ← peekToken with
    | .directive content =>
      dropToken
      match content with
      | .version major _ =>
        if versioned || major ≠ 1 then throw .unreadable else readDirectives fuel true
      | .tag handle beginning =>
        let reading ← get
        if (reading.handles.lookup handle).isSome then throw .unreadable
        else
          set { reading with handles := (handle, beginning) :: reading.handles }
          readDirectives fuel versioned
      | .other => readDirectives fuel versioned
    | _ => return ()

/-- Moves behind all marks of a document's end. -/
def dropEnds : (fuel : Nat) → Reader Unit
  | 0 => throw .unreadable
  | fuel + 1 => do
    if ← dropIf .documentEnd then dropEnds fuel else return ()

/-- Is the next token a directive? -/
def directiveNext : Reader Bool := do
  match ← peekToken with
  | .directive _ => return true
  | _ => return false

/-- The beginning of a document that is marked, and whether there is one. -/
def markedStart (fuel : Nat) : Reader Bool := do
  dropEnds fuel
  if (← peekToken) = .streamEnd then return false
  else
    modify fun reading => { reading with handles := [] }
    readDirectives fuel false
    if ← dropIf .documentStart then
      modify fun reading => { reading with handles := reading.handles ++ defaultHandles }
      return true
    else throw .unreadable

/-- The content of a document behind its mark, which may be left out. -/
def markedContent (fuel : Nat) : Reader Nat := do
  if (← directiveNext) || (← nextIn [.documentStart, .documentEnd, .streamEnd]) then emptyNode
  else readNode true false fuel

/-- The number of a text's root node, if it is a document at all. -/
def readRoot (fuel : Nat) : Reader (Option Nat) := do
  if (← directiveNext) || (← nextIn [.documentStart, .streamEnd]) then
    if ← markedStart fuel then return some (← markedContent fuel) else return none
  else
    modify fun reading => { reading with handles := defaultHandles }
    return some (← readNode true false fuel)

/-- The number of the root node of a text, in which no second document may follow. -/
def readSingle (fuel : Nat) : Reader (Option Nat) := do
  let root ← readRoot fuel
  if ← markedStart fuel then throw .unreadable else return root

/-- The nodes of a text and the number of its root. -/
def nodesOf (text : String) : Except Error (Array Node × Option Nat) := do
  let (tokens, fault) := tokensOf text
  let fuel := 3 * tokens.length + 8
  let (root, reading) ← readSingle fuel { tokens, ending := fault.getD .unreadable }
  return (reading.nodes, root)

end ZeroRun.Document
