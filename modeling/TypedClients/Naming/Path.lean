import TypedClients.Naming.Identifier
import TypedClients.Text.Lower
import TypedClients.Text.Pieces

/-!
# Names from paths

A path template is read as a row of characters and placeholders `{name}`. Its *static
segments* are the parts between slashes that name resources: not empty, no placeholder, no
version. The resource of a path is its last few static segments; an operation is named by its
method, its resource and its placeholders.

* `text_pieces`: the pieces of a path, written out, give the path back.

Mirrors `extract_path_params`, `path_param_suffix`, `static_segments`,
`extract_resource_name`, `operation_function_name` and `operation_type_name`.
-/

namespace TypedClients.Naming

/-! ## Templates -/

/-- A piece of a path template. -/
inductive Piece
  | char (c : Char)
  | placeholder (name : List Char)
  deriving DecidableEq, Repr

/-- A piece as it is written in a path. -/
def Piece.text : Piece → List Char
  | char c => [c]
  | placeholder name => '\x7b' :: name ++ ['\x7d']

/-- The pieces of a path, where `opened` holds the name of a placeholder whose end has not
come yet. Braces that enclose nothing or are never closed are characters like others. -/
def piecesFrom (opened : Option (List Char)) : List Char → List Piece
  | [] =>
    match opened with
    | none => []
    | some name => ('\x7b' :: name).map .char
  | c :: rest =>
    match opened with
    | none => if c = '\x7b' then piecesFrom (some []) rest else .char c :: piecesFrom none rest
    | some name =>
      if c = '\x7d' then
        if name = [] then .char '\x7b' :: .char '\x7d' :: piecesFrom none rest
        else .placeholder name :: piecesFrom none rest
      else piecesFrom (some (name ++ [c])) rest

/-- The pieces of a path. -/
def pieces (path : List Char) : List Piece := piecesFrom none path

/-- The names of the placeholders of a path, in path order (`extract_path_params`). -/
def placeholders (path : String) : List String :=
  (pieces path.toList).filterMap fun
    | .char _ => none
    | .placeholder name => some (String.ofList name)

theorem text_piecesFrom (opened : Option (List Char)) (s : List Char) :
    (piecesFrom opened s).flatMap Piece.text =
      (match opened with | none => [] | some name => '\x7b' :: name) ++ s := by
  induction s generalizing opened with
  | nil =>
    cases opened with
    | none => rfl
    | some name => simp [piecesFrom, List.flatMap_map, Piece.text]
  | cons c rest ih =>
    cases opened with
    | none =>
      by_cases h : c = '\x7b'
      · subst h
        simp [piecesFrom, ih]
      · simp [piecesFrom, h, ih, Piece.text]
    | some name =>
      by_cases h : c = '\x7d'
      · subst h
        by_cases hn : name = []
        · subst hn
          simp [piecesFrom, ih, Piece.text]
        · simp [piecesFrom, hn, ih, Piece.text]
      · simp [piecesFrom, h, ih]

theorem text_pieces (path : List Char) : (pieces path).flatMap Piece.text = path := by
  rw [pieces, text_piecesFrom]
  rfl

/-! ## Segments and resources -/

/-- The segments of paths that say nothing about resources, unless settings name others. -/
def defaultVersionSegments : List String := ["api", "v1", "v2", "v3"]

/-- How many trailing segments name a resource, unless settings say otherwise. -/
def defaultWindow : Int := 3

/-- Whether a segment names a resource. -/
def isStatic (versions : List String) (segment : String) : Bool :=
  segment ≠ "" && segment.toList.head? ≠ some '\x7b' && segment.toList.getLast? ≠ some '\x7d' &&
    !(versions.any fun v => Text.lowerString v = Text.lowerString segment)

/-- The segments of a path that name resources (`static_segments`). -/
def staticSegments (path : String) (versions : List String) : List String :=
  (Text.splitString '/' path).filter (isStatic versions)

/-- Names without those that the next one begins with. -/
def foldInto : List String → List String
  | [] => []
  | [s] => [s]
  | s :: t :: rest =>
    if s.toList.isPrefixOf t.toList then foldInto (t :: rest) else s :: foldInto (t :: rest)

/-- The last names of a list. A window of zero keeps all of them; a negative one drops that
many from the start. -/
def lastNames (window : Int) (names : List String) : List String :=
  match window with
  | .ofNat 0 => names
  | .ofNat n => names.drop (names.length - n)
  | .negSucc n => names.drop (n + 1)

/-- The resource of a path without static segments. -/
def defaultResource : String := "Root"

/-- The resource that a path names (`extract_resource_name`). -/
def resource (path : String) (versions : List String) (window : Int) : String :=
  let names := foldInto ((staticSegments path versions).map pascal)
  let joined := String.join (lastNames window names)
  if joined = "" then defaultResource else joined

/-- The part of a name that lists the placeholders of a path (`path_param_suffix`). -/
def placeholderSuffix (path : String) : String :=
  String.join ((placeholders path).map fun p => "By" ++ pascal p)

/-- The name of the operation of a method on a path (`operation_function_name`). -/
def operationName (method path : String) (versions : List String) (window : Int) : String :=
  Text.lowerString method ++ resource path versions window ++ placeholderSuffix path

/-- The name of the type of what an operation is sent (`operation_type_name`). -/
def requestName (method path : String) (versions : List String) (window : Int) : String :=
  operationName method path versions window ++ "Request"

/-- The name of the type of what an operation answers (`operation_type_name`). -/
def responseName (method path : String) (versions : List String) (window : Int) : String :=
  operationName method path versions window ++ "Response"

end TypedClients.Naming
