import TypedClients.Yaml.Part

/-!
# Values without numbers

`Parts.unfold` writes out a value whose inside is given by numbers. What contains itself has
no finite form: such a collection becomes a knot with its number, with as many of its own
occurrences written out inside it as there are levels. Each value is written out once per
level however often it is mentioned. `read` gives the value of the one document of a text: its
tokens, the nodes that they describe, the values of the nodes, and these written out.
-/

namespace TypedClients.Yaml

namespace Parts

/-- The numbers that a value mentions. -/
def mentioned : Part → List Nat
  | .whole _ => []
  | .list items => items
  | .pair key value => [key, value]
  | .set _ => []
  | .map entries => entries.map Prod.snd

/-- A value with what its numbers stand for. -/
def assembled (lookup : Nat → Value) : Part → Value
  | .whole v => v
  | .list items => .list (items.map lookup)
  | .pair key value => .pair (lookup key) (lookup value)
  | .set members => .set members
  | .map entries => .map (entries.map fun (k, id) => (k, lookup id))

/-! ## Finite values -/

/-- What is known of a number: its value is being written out, it is finite, or it leads to
one that contains itself. -/
inductive Finding
  | started
  | finite (v : Value)
  | tangled

/-- What is known of each number. -/
abbrev Findings := Array (Option Finding)

/-- The finite value that a number is known to stand for. -/
def Findings.value? (fs : Findings) (id : Nat) : Option Value :=
  match fs[id]? with
  | some (some (.finite v)) => some v
  | _ => none

/-- Finds out about a number, and about all that it leads to. A number that is met again while
its value is being written out contains itself. -/
def explore (parts : Parts) : Nat → Findings → Nat → Findings
  | 0, fs, _ => fs
  | allowance + 1, fs, id =>
    match fs[id]?, (parts[id]?).join with
    | some none, some part =>
      let fs := (mentioned part).foldl (explore parts allowance)
        (fs.setIfInBounds id (some .started))
      let finding := if (mentioned part).all fun m => (fs.value? m).isSome then
          .finite (assembled (fun m => (fs.value? m).getD .null) part)
        else .tangled
      fs.setIfInBounds id (some finding)
    | _, _ => fs

/-! ## Values that contain themselves -/

/-- The value of a number where those inside it that are not finite stand in a table. -/
def knotted (parts : Parts) (fs : Findings) (inside : Array Value) (id : Nat) : Value :=
  match fs.value? id, (parts[id]?).join with
  | some v, _ => v
  | none, some part => .knot id
    (assembled (fun m => (fs.value? m).getD (inside.getD m .endless)) part)
  | none, none => .endless

/-- The values of all numbers down to a number of levels. -/
def levels (parts : Parts) (fs : Findings) : Nat → Array Value
  | 0 => Array.replicate parts.size .endless
  | n + 1 =>
    let inside := levels parts fs n
    (Array.range parts.size).map (knotted parts fs inside)

/-- How many levels of what contains itself are written out. -/
def depthOfKnots : Nat := 64

/-- The value of a number. -/
def unfold (parts : Parts) (id : Nat) : Value :=
  let fs := explore parts (parts.size + 1) (Array.replicate parts.size none) id
  match fs.value? id with
  | some v => v
  | none =>
    let tangled := fs.toList.countP fun f => match f with
      | some .tangled => true
      | _ => false
    knotted parts fs (levels parts fs (depthOfKnots + tangled)) id

end Parts

/-! ## Documents -/

/-- The value of a document. -/
def Graph.toValue (g : Graph) : Except Refusal Value := do return (← Parts.ofGraph g).unfold g.root

/-- The value of the one document of a text; a text without a document is null. -/
def read (text : String) : Except Refusal Value := do
  match ← Graph.ofTokens? (← Tokens.ofText text.toList) with
  | some g => g.toValue
  | none => return .null

end TypedClients.Yaml
