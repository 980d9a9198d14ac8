import TypedClients.Yaml.Tag
import TypedClients.Yaml.Token

/-!
# The nodes of a YAML document

`Graph.ofTokens?` reads the tokens of a text as the nodes of its one document. Nodes are
numbered and name each other by number, so that an alias is one more mention of a node, inside
the node itself too. Every reading function takes an allowance that goes down by one in each
call; a few calls per token are enough, because each one takes a token or is followed by one
that does.
-/

namespace TypedClients.Yaml

/-- What a node holds; the nodes inside it are given by number. -/
inductive Content
  | scalar (text : List Char)
  | sequence (items : List Nat)
  | mapping (entries : List (Nat × Nat))
  deriving DecidableEq, Repr

/-- A node of a document. -/
structure Node where
  tag : Tag
  content : Content
  deriving DecidableEq, Repr

/-- The nodes of a document and the number of the outermost one. -/
structure Graph where
  nodes : Array Node
  root : Nat

namespace Graph

/-! ## What is known while reading -/

/-- The tokens that are left, the nodes so far, the anchors with the numbers of their nodes
and the tag handles. -/
structure Outlook where
  tokens : Tokens
  nodes : Array Node
  anchors : List (String × Nat)
  handles : List (String × String)

/-- A step of reading. -/
abbrev Reading := StateT Outlook (Except Refusal)

/-- Refuses the document. -/
def reject {α : Type} : Reading α := throw .malformed

/-- The next token, which is asked for. -/
def peek : Reading Token := do
  let ts := (← get).tokens
  match ts.list with
  | t :: _ => return t
  | [] => throw ts.ending

/-- Whether one of some tokens comes next. -/
def isNext (ts : List Token) : Reading Bool := do return ts.contains (← peek)

/-- Passes over the next token. -/
def skip : Reading Unit :=
  modify fun o => { o with tokens := { o.tokens with list := o.tokens.list.tail } }

/-- Passes over the next token if it is the given one. -/
def accept (t : Token) : Reading Bool := do
  if ← isNext [t] then skip; return true else return false

/-- Passes over the next token, which has to be the given one. -/
def expect (t : Token) : Reading Unit := do
  if !(← accept t) then reject

/-- One more node. -/
def add (n : Node) : Reading Nat := do
  let id := (← get).nodes.size
  modify fun o => { o with nodes := o.nodes.push n }
  return id

/-- Settles what a node holds. -/
def fill (id : Nat) (content : Content) : Reading Unit :=
  modify fun o => { o with nodes := o.nodes.modify id fun n => { n with content } }

/-- What stands where nothing is written. -/
def addEmpty : Reading Nat := add ⟨.null, .scalar []⟩

/-! ## Properties -/

/-- Takes an anchor if one comes next. -/
def anchor? : Reading (Option String) := do
  match ← peek with
  | .anchor name => skip; return some name
  | _ => return none

/-- Takes a tag if one comes next. -/
def tag? : Reading (Option (Option String × String)) := do
  match ← peek with
  | .tag handle suffix => skip; return some (handle, suffix)
  | _ => return none

/-- A tag with its handle replaced. -/
def expanded : Option String × String → Reading String
  | (none, suffix) => return suffix
  | (some handle, suffix) => do
    match (← get).handles.lookup handle with
    | some expansion => return expansion ++ suffix
    | none => reject

/-- The anchor and the tag before a node, in either order. -/
def properties : Reading (Option String × Option String) := do
  match ← anchor? with
  | some anchor => return (some anchor, ← (← tag?).mapM expanded)
  | none =>
    match ← tag? with
    | some tag =>
      let anchor ← anchor?
      return (anchor, some (← expanded tag))
    | none => return (none, none)

/-- The tag of a collection of a kind. -/
def collectionTag (kind : Tag) : Option String → Tag
  | none => kind
  | some name => if name = "!" then kind else .ofName name

/-- The tag of a scalar. Without a written one, the text of a plain scalar decides. -/
def scalarTag (written : Option String) (text : List Char) (isPlain : Bool) : Tag :=
  match written with
  | none => if isPlain then .ofText text else .str
  | some name => if name = "!" then .ofText text else .ofName name

/-- One more node, which an anchor may name from now on. -/
def addNamed (anchor : Option String) (n : Node) : Reading Nat := do
  let id ← add n
  match anchor with
  | some name => modify fun o => { o with anchors := (name, id) :: o.anchors }
  | none => pure ()
  return id

/-- Refuses an anchor that names a node already. -/
def requireNew : Option String → Reading Unit
  | some name => do if ((← get).anchors.lookup name).isSome then reject
  | none => return ()

/-- The node that an alias stands for. -/
def ofAlias (name : String) : Reading Nat := do
  match (← get).anchors.lookup name with
  | some id => return id
  | none => reject

/-! ## Nodes -/

/-- Where a node stands, which decides the forms it may have. -/
inductive Place
  | flow
  | block
  /-- A key or value of a block mapping, where a sequence need not be indented. -/
  | entry
  deriving DecidableEq, Repr

mutual

/-- A node. -/
def read (place : Place) : Nat → Reading Nat
  | 0 => reject
  | allowance + 1 => do
    match ← peek with
    | .alias name =>
      skip
      ofAlias name
    | _ =>
      let (anchor, written) ← properties
      readContent place anchor written allowance

/-- A node after its properties. Only a node with properties may have no content. -/
def readContent (place : Place) (anchor written : Option String) : Nat → Reading Nat
  | 0 => reject
  | allowance + 1 => do
    let next ← peek
    requireNew anchor
    let sequenceOf (items : Reading (List Nat)) : Reading Nat := do
      let id ← addNamed anchor ⟨collectionTag .seq written, .sequence []⟩
      fill id (.sequence (← items))
      return id
    let mappingOf (entries : Reading (List (Nat × Nat))) : Reading Nat := do
      let id ← addNamed anchor ⟨collectionTag .map written, .mapping []⟩
      fill id (.mapping (← entries))
      return id
    match next with
    | .scalar text isPlain =>
      skip
      addNamed anchor ⟨scalarTag written text.toList isPlain, .scalar text.toList⟩
    | .flowSequenceStart =>
      skip
      sequenceOf (flowItems true allowance)
    | .flowMappingStart =>
      skip
      mappingOf (flowEntries true allowance)
    | t =>
      if t = .blockEntry && place = .entry then sequenceOf (looseItems allowance)
      else if t = .blockSequenceStart && place ≠ .flow then
        skip
        sequenceOf (blockItems allowance)
      else if t = .blockMappingStart && place ≠ .flow then
        skip
        mappingOf (blockEntries allowance)
      else if anchor.isSome || written.isSome then
        addNamed anchor ⟨scalarTag written [] true, .scalar []⟩
      else reject

/-- A node, or nothing if one of some tokens comes instead. -/
def readUnless (place : Place) (ends : List Token) : Nat → Reading Nat
  | 0 => reject
  | allowance + 1 => do
    if ← isNext ends then addEmpty else read place allowance

/-- The items of a block sequence. -/
def blockItems : Nat → Reading (List Nat)
  | 0 => reject
  | allowance + 1 => do
    if ← accept .blockEntry then
      let item ← readUnless .block [.blockEntry, .blockEnd] allowance
      return item :: (← blockItems allowance)
    else
      expect .blockEnd
      return []

/-- The items of a block sequence that is not indented; nothing marks its end. -/
def looseItems : Nat → Reading (List Nat)
  | 0 => reject
  | allowance + 1 => do
    if ← accept .blockEntry then
      let item ← readUnless .block [.blockEntry, .key, .value, .blockEnd] allowance
      return item :: (← looseItems allowance)
    else return []

/-- The entries of a block mapping. -/
def blockEntries : Nat → Reading (List (Nat × Nat))
  | 0 => reject
  | allowance + 1 => do
    if ← accept .key then
      let key ← readUnless .entry [.key, .value, .blockEnd] allowance
      let value ←
        if ← accept .value then readUnless .entry [.key, .value, .blockEnd] allowance
        else addEmpty
      return (key, value) :: (← blockEntries allowance)
    else
      expect .blockEnd
      return []

/-- A key in a flow collection and its value, if it has one. -/
def flowPair (closing : Token) : Nat → Reading (Nat × Nat)
  | 0 => reject
  | allowance + 1 => do
    let key ← readUnless .flow [.value, .flowEntry, closing] allowance
    let value ←
      if ← accept .value then readUnless .flow [.flowEntry, closing] allowance else addEmpty
    return (key, value)

/-- The items of a flow sequence; a single pair in it is a mapping. -/
def flowItems (isFirst : Bool) : Nat → Reading (List Nat)
  | 0 => reject
  | allowance + 1 => do
    if ← accept .flowSequenceEnd then return []
    else
      if !isFirst then expect .flowEntry
      if ← accept .key then
        let id ← add ⟨.map, .mapping []⟩
        fill id (.mapping [← flowPair .flowSequenceEnd allowance])
        return id :: (← flowItems false allowance)
      else if ← accept .flowSequenceEnd then return []
      else
        let item ← read .flow allowance
        return item :: (← flowItems false allowance)

/-- The entries of a flow mapping; a key may stand alone. -/
def flowEntries (isFirst : Bool) : Nat → Reading (List (Nat × Nat))
  | 0 => reject
  | allowance + 1 => do
    if ← accept .flowMappingEnd then return []
    else
      if !isFirst then expect .flowEntry
      if ← accept .key then
        let pair ← flowPair .flowMappingEnd allowance
        return pair :: (← flowEntries false allowance)
      else if ← accept .flowMappingEnd then return []
      else
        let key ← read .flow allowance
        let value ← addEmpty
        return (key, value) :: (← flowEntries false allowance)

end

/-! ## Documents -/

/-- The tag handles that need no directive. -/
def usualHandles : List (String × String) := [("!", "!"), ("!!", Tag.family)]

/-- Reads the directives before a document: at most one version, and at most one expansion of
each tag handle. -/
def directives (hasVersion : Bool) (handles : List (String × String)) : Nat → Reading Unit
  | 0 => reject
  | allowance + 1 => do
    match ← peek with
    | .directive (.version major) =>
      skip
      if hasVersion || major ≠ 1 then reject
      directives true handles allowance
    | .directive (.tag handle expansion) =>
      skip
      if (handles.lookup handle).isSome then reject
      directives hasVersion ((handle, expansion) :: handles) allowance
    | .directive .other =>
      skip
      directives hasVersion handles allowance
    | _ => modify fun o => { o with handles := handles ++ usualHandles }

/-- Whether a token ends a document that has no content. -/
def endsDocument : Token → Bool
  | .directive _ | .documentStart | .documentEnd | .streamEnd => true
  | _ => false

/-- The allowance for the tokens that are left. -/
def allowance : Reading Nat := do return 4 * (← get).tokens.list.length + 8

/-- Refuses anything after a document but its end mark. -/
def finish : Reading Unit := do
  modify fun o =>
    { o with tokens := { o.tokens with list := o.tokens.list.dropWhile (· = .documentEnd) } }
  if (← peek) ≠ .streamEnd then
    directives false [] (← allowance)
    discard peek
    reject

/-- The outermost node of the one document of a text, if it has any. -/
def document : Reading (Option Nat) := do
  match ← peek with
  | .streamEnd => return none
  | .directive _ | .documentStart =>
    directives false [] (← allowance)
    expect .documentStart
    let root ← if endsDocument (← peek) then addEmpty else read .block (← allowance)
    finish
    return some root
  | _ =>
    let root ← read .block (← allowance)
    finish
    return some root

/-- The one document of a text, if it has any. -/
def ofTokens? (ts : Tokens) : Except Refusal (Option Graph) := do
  let (root?, o) ← document.run ⟨ts, #[], [], usualHandles⟩
  return root?.map fun root => ⟨o.nodes, root⟩

end Graph

end TypedClients.Yaml
