import TypedClients.Text.Pieces
import TypedClients.Text.Sorted

/-!
# The tree of a set of paths

Paths are shown as an indented tree, in code-point order: each directory once, ahead of what
is below it, with a slash behind its name.

Mirrors `preview_structure`. `entriesFrom` is the loop of `preview_structure` over the sorted
paths, with the folders that were shown handed on.
-/

namespace TypedClients.Preview

/-- A line of the tree: a label at a depth. -/
structure Entry where
  depth : Nat
  label : String
  isDirectory : Bool
  deriving DecidableEq, Repr

/-- A line as text. -/
def Entry.text (e : Entry) : String :=
  Text.repeated "  " e.depth ++ e.label ++ (if e.isDirectory then "/" else "")

/-- The lines for the directories of a path that have not come yet, and all directories seen. -/
def directories (seen : List (List String)) (above : List String) :
    List String → List Entry × List (List String)
  | [] | [_] => ([], seen)
  | part :: rest =>
    let here := above ++ [part]
    if seen.contains here then directories seen here rest
    else
      let (entries, seen) := directories (here :: seen) here rest
      (⟨above.length, part, true⟩ :: entries, seen)

/-- The lines for paths in order. -/
def entriesFrom (seen : List (List String)) : List String → List Entry
  | [] => []
  | path :: rest =>
    let parts := Text.splitString '/' path
    let (entries, seen) := directories seen [] parts
    entries ++ ⟨parts.length - 1, parts.getLast?.getD "", false⟩ :: entriesFrom seen rest

/-- The lines of the tree of a collection of paths. -/
def entries (paths : List String) : List Entry :=
  entriesFrom [] (Text.sortedBy Text.codePoints paths)

/-- The tree of a collection of paths (`preview_structure`). -/
def text (paths : List String) : String :=
  Text.joinStrings "\n" ((entries paths).map Entry.text)

end TypedClients.Preview
