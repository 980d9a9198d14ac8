import TypedClients.Naming.Path

/-!
# Paths as expressions

In a client a path is written as an expression: in single quotes if it has no placeholder,
otherwise as a template whose placeholders are the arguments of the member. The backticks of
the path are escaped before its placeholders are looked for in it.

Mirrors `path_argument_name` and `path_expression`.
-/

namespace TypedClients.Client

/-- The names of arguments that members use themselves. -/
def ownArguments : List String := ["data", "params", "options", "reqOptions"]

/-- The name of the argument for a placeholder (`path_argument_name`). -/
def pathArgument (placeholder : String) : String :=
  let name := Naming.argumentName placeholder
  if ownArguments.contains name then name ++ "Param" else name

/-- A character inside a template. -/
def templateChar (c : Char) : List Char := if c = '\x60' then ['\\', '\x60'] else [c]

/-- The pieces of a path whose backticks are escaped. -/
def templatePieces (path : String) : List Naming.Piece :=
  Naming.pieces (path.toList.flatMap templateChar)

/-- A piece as it stands in a template: a placeholder gives way to its argument. -/
def templatePiece : Naming.Piece → List Char
  | .char c => [c]
  | .placeholder name => '$' :: '\x7b' :: (pathArgument (String.ofList name)).toList ++ ['\x7d']

/-- The expression for a path (`path_expression`). -/
def pathExpression (path : String) : String :=
  if Naming.placeholders path = [] then Naming.singleQuoted path
  else String.ofList ('\x60' :: (templatePieces path).flatMap templatePiece ++ ['\x60'])

end TypedClients.Client
