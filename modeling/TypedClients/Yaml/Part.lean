import TypedClients.Value.Same
import TypedClients.Yaml.Node
import TypedClients.Yaml.Scalar

/-!
# The values of the nodes of a YAML document

`Parts.ofGraph` gives each node of a document its value, in which the values inside are still
given by the numbers of their nodes. The order matters for documents with several faults: the
fault that is met first is the one reported. A scalar is read as soon as it is met; what a
collection holds is looked at after everything that was met before it, level by level from the
outermost node on.

The entries that a mapping merges in come before its own, so its own values win while the
merged keys keep their places; of several mappings that are merged in, the first wins. Merging
changes the node itself, so it happens once, wherever the node is met.
-/

namespace TypedClients.Yaml

/-- The value of a node, with the values inside it given by number. -/
inductive Part
  | whole (v : Value)
  | list (items : List Nat)
  | pair (key value : Nat)
  | set (members : List Value)
  | map (entries : List (Value × Nat))

/-- Values that are given by number. A value that nothing needs is missing. -/
abbrev Parts := Array (Option Part)

namespace Parts

/-- What is known while values are made: the nodes, their values, the collections that have
been met but not looked at, last one first, and the number of merges that can still happen. -/
structure Workbench where
  nodes : Array Node
  parts : Parts
  pending : List Nat
  merges : Nat

/-- A step of making values. -/
abbrev Making := StateT Workbench (Except Refusal)

/-- Refuses the document. -/
def reject {α : Type} : Making α := throw .malformed

/-- The node with a number. -/
def node (id : Nat) : Making Node := do
  match (← get).nodes[id]? with
  | some n => return n
  | none => reject

/-- Changes the node with a number. -/
def setNode (id : Nat) (n : Node) : Making Unit :=
  modify fun w => { w with nodes := w.nodes.setIfInBounds id n }

/-- The value made for a node, if it has been met. -/
def part? (id : Nat) : Making (Option Part) := do return ((← get).parts[id]?).join

/-- Settles the value of a node. -/
def setPart (id : Nat) (p : Part) : Making Unit :=
  modify fun w => { w with parts := w.parts.setIfInBounds id (some p) }

/-! ## Merging -/

/-- The entries of a mapping node; another node has none. -/
def entriesOf (id : Nat) : Making (List (Nat × Nat)) := do
  match (← node id).content with
  | .mapping entries => return entries
  | _ => return []

/-- Changes the entries of a mapping node. -/
def setEntries (id : Nat) (entries : List (Nat × Nat)) : Making Unit := do
  setNode id { ← node id with content := .mapping entries }

/-- Whether a node is a mapping. -/
def isMapping (id : Nat) : Making Bool := do
  match (← node id).content with
  | .mapping _ => return true
  | _ => return false

/-- Whether the node with a number has a tag. -/
def hasTag (nodes : Array Node) (tag : Tag) (id : Nat) : Bool := nodes[id]?.any (·.tag = tag)

/-- Takes the first entry that merges something in out of a mapping, and gives what it merges
in. -/
def takeMerge? (id : Nat) : Making (Option Nat) := do
  let entries ← entriesOf id
  let nodes := (← get).nodes
  let before := entries.takeWhile fun e => !hasTag nodes .merge e.1
  match entries.drop before.length with
  | (_, merged) :: rest =>
    setEntries id (before ++ rest)
    return some merged
  | [] => return none

/-- A key that says that a mapping can stand for a scalar is an ordinary text in a mapping
that does not. -/
def makePlain (key : Nat) : Making Unit := do
  let n ← node key
  if n.tag = .value then setNode key { n with tag := .str }

mutual

/-- Puts the entries that a mapping merges in before its own. -/
def mergeInto (id : Nat) : Nat → Making Unit
  | 0 => reject
  | allowance + 1 => do
    let merged ← mergedFrom id allowance
    (← entriesOf id).forM fun e => makePlain e.1
    if !merged.isEmpty then setEntries id (merged ++ (← entriesOf id))

/-- The entries that a mapping merges in, which are taken out of it. -/
def mergedFrom (id : Nat) : Nat → Making (List (Nat × Nat))
  | 0 => reject
  | allowance + 1 => do
    match ← takeMerge? id with
    | none => return []
    | some source =>
      let first ← contributed source allowance
      return first ++ (← mergedFrom id allowance)

/-- The entries that a node contributes where it is merged in: those of a mapping, or those of
the mappings in a sequence, the last mapping first. -/
def contributed (id : Nat) : Nat → Making (List (Nat × Nat))
  | 0 => reject
  | allowance + 1 => do
    match (← node id).content with
    | .mapping _ =>
      mergeInto id allowance
      entriesOf id
    | .sequence items =>
      let groups ← items.mapM fun item => do
        if !(← isMapping item) then reject
        mergeInto item allowance
        entriesOf item
      return groups.reverse.flatten
    | .scalar _ => reject

end

/-- Merges into a mapping what it asks for. -/
def settleMerges (id : Nat) : Making Unit := do mergeInto id (3 * (← get).merges + 3)

/-! ## Scalars -/

/-- The text of a scalar, or of the scalar that a mapping can stand for. -/
def scalarText (id : Nat) : Nat → Making (List Char)
  | 0 => throw (.mishap .tooDeep)
  | allowance + 1 => do
    match (← node id).content with
    | .scalar text => return text
    | .sequence _ => reject
    | .mapping entries =>
      let nodes := (← get).nodes
      match entries.find? fun e => hasTag nodes .value e.1 with
      | some (_, value) => scalarText value allowance
      | none => reject

/-- The value of a node that has the tag of a scalar. A timestamp needs a text of its own. -/
def scalarValue (id : Nat) : Making Value := do
  let n ← node id
  let text ← scalarText id ((← get).nodes.size + 1)
  if n.tag = .timestamp && (← isMapping id) then throw (.mishap .wrongType)
  Scalar.value n.tag text

/-! ## Values of nodes -/

/-- The value that a collection has before it is looked at, if a tag is that of a collection. -/
def emptyPart? : Tag → Option Part
  | .seq | .pairs => some (.list [])
  | .set => some (.set [])
  | .map => some (.map [])
  | _ => none

/-- Meets a node: makes a scalar's value, and puts a collection on the list. -/
def meet (id : Nat) : Making Unit := do
  if (← part? id).isNone then
    match emptyPart? (← node id).tag with
    | some p =>
      setPart id p
      modify fun w => { w with pending := id :: w.pending }
    | none => setPart id (.whole (← scalarValue id))

/-- The value of a key, which has to be a scalar. -/
def keyValue (id : Nat) : Making Value := do
  meet id
  match ← part? id with
  | some (.whole v) => return v
  | _ => reject

/-- The entries of a mapping by the values of their keys: the last value of a key counts, at
the place of the first. -/
def entryParts : List (Value × Nat) → List (Nat × Nat) → Making (List (Value × Nat))
  | done, [] => return done
  | done, (key, value) :: rest => do
    let k ← keyValue key
    meet value
    entryParts (Value.upsert k value done) rest

/-- The entries of a node, which has to be a mapping, after merging. -/
def mappingParts (id : Nat) : Making (List (Value × Nat)) := do
  if !(← isMapping id) then reject
  settleMerges id
  entryParts [] (← entriesOf id)

/-- The items of a node, which has to be a sequence. -/
def itemsOf (id : Nat) : Making (List Nat) := do
  match (← node id).content with
  | .sequence items => return items
  | _ => reject

/-- A mapping of one entry as a pair, with a number of its own. -/
def pairOf (id : Nat) : Making Nat := do
  match (← node id).content with
  | .mapping [(key, value)] =>
    meet key
    meet value
    let number := (← get).parts.size
    modify fun w => { w with parts := w.parts.push (some (.pair key value)) }
    return number
  | _ => reject

/-- Looks at what a collection holds. -/
def lookInto (id : Nat) : Making Unit := do
  match (← node id).tag with
  | .seq =>
    let items ← itemsOf id
    items.forM meet
    setPart id (.list items)
  | .pairs => setPart id (.list (← (← itemsOf id).mapM pairOf))
  | .set => setPart id (.set ((← mappingParts id).map Prod.fst))
  | .map => setPart id (.map (← mappingParts id))
  | _ => reject

/-- Looks at collections, then at those met meanwhile, until there are no more. -/
def openAll : Nat → Making Unit
  | 0 => return ()
  | allowance + 1 => do
    match (← get).pending with
    | [] => return ()
    | ids =>
      modify fun w => { w with pending := [] }
      ids.reverse.forM lookInto
      openAll allowance

/-- The number of entries in the mappings among some nodes. -/
def entryCount (nodes : Array Node) : Nat :=
  nodes.foldl (fun n node => match node.content with
    | .mapping entries => n + entries.length
    | _ => n) 0

/-- The values of the nodes of a document. -/
def ofGraph (g : Graph) : Except Refusal Parts := do
  let make : Making Unit := do
    meet g.root
    openAll (g.nodes.size + 1)
  let (_, w) ← make.run ⟨g.nodes, Array.replicate g.nodes.size none, [], entryCount g.nodes⟩
  return w.parts

end Parts

end TypedClients.Yaml
