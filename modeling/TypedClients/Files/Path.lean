import TypedClients.Text.Lower
import TypedClients.Text.Pieces

/-!
# Paths as they are written

A path is kept as it was given, except that empty parts and parts that name the folder they
are in are left out. Parts that name the parent folder stay: what they mean depends on the
links on the way.
-/

namespace TypedClients.Files

/-- A path: how many slashes it begins with, and its parts. Two slashes are kept as two, more
than two count as one; without any, the path starts at the working folder. -/
structure Path where
  slashes : Nat
  parts : List String
  deriving DecidableEq, Repr

namespace Path

/-- How many slashes at the start of a text count. -/
def leadingSlashes (s : List Char) : Nat :=
  match (s.takeWhile (· = '/')).length with
  | 0 => 0
  | 2 => 2
  | _ => 1

/-- The path that a text is. -/
def ofString (s : String) : Path :=
  ⟨leadingSlashes s.toList, (Text.splitString '/' s).filter fun p => p ≠ "" ∧ p ≠ "."⟩

/-- The text of a path. The working folder is a dot. -/
def text (p : Path) : String :=
  if p.slashes = 0 ∧ p.parts = [] then "."
  else Text.repeated "/" p.slashes ++ Text.joinStrings "/" p.parts

/-- A path below another one; a path from the root stays as it is. -/
def join (p q : Path) : Path := if q.slashes = 0 then ⟨p.slashes, p.parts ++ q.parts⟩ else q

/-- The path below a path with a given text. -/
def below (p : Path) (s : String) : Path := p.join (ofString s)

/-- Whether a path has a null character in it, which no name has. -/
def hasNull (p : Path) : Bool := p.parts.any (·.toList.contains '\x00')

/-- The path of what holds a path. -/
def parent (p : Path) : Path := ⟨p.slashes, p.parts.dropLast⟩

/-- The last part of a path. -/
def name (p : Path) : String := (p.parts.getLast?).getD ""

/-- The name without its ending, and the ending. An ending starts at the last dot, which is
neither the first nor the last character of the name. -/
def splitName (p : Path) : String × String :=
  let cs := p.name.toList
  let ending := Text.afterLast '.' cs
  let stem := cs.take (cs.length - ending.length - 1)
  if cs.contains '.' ∧ ending ≠ [] ∧ stem ≠ [] then
    (String.ofList stem, String.ofList ('.' :: ending))
  else (p.name, "")

/-- The name without its ending. -/
def stem (p : Path) : String := p.splitName.1

/-- The ending of the name in small letters. -/
def ending (p : Path) : String := Text.lowerString p.splitName.2

end Path

end TypedClients.Files
