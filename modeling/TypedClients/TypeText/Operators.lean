import TypedClients.Schema.Basic
import TypedClients.Text.Blank
import TypedClients.TypeText.Scan

/-!
# Putting type expressions together

The operations on written types: array of a type, union and intersection of types, and
admitting null. Parentheses are put where the operator inside would otherwise bind less
tightly than the one outside, which is seen from the written types alone.

Mirrors `_array_of`, `_combine` and `_with_null`.
-/

namespace TypedClients.TypeText

/-- The type of values of which nothing is known. -/
def unknown : String := "unknown"

/-- The type of values that may be used in any way. -/
def any : String := "any"

/-- The type of lists of a type (`_array_of`). -/
def arrayOf (item : String) : String :=
  if hasTopLevelOperator item.toList then "(" ++ item ++ ")[]" else item ++ "[]"

/-- A type as an operand of an intersection. -/
def operand (t : String) : String :=
  if (topLevel t.toList).contains '|' then "(" ++ t ++ ")" else t

/-- The composition of types (`_combine`). -/
def compose (mode : Composition) (members : List String) : String :=
  match members with
  | [] => unknown
  | _ =>
    match mode with
    | .allOf => Text.joinStrings " & " (members.map operand)
    | .oneOf | .anyOf => Text.joinStrings " | " members

/-- Whether null is one of the alternatives of a type. -/
def hasNull (t : String) : Bool :=
  (splitTopLevel '|' t.toList).any fun piece => Text.trim piece = "null".toList

/-- A type that also admits null, if asked for (`_with_null`); null is added once. -/
def withNull (nullable : Bool) (t : String) : String :=
  if !nullable || hasNull t then t else t ++ " | null"

/-- Members one after the other in the braces of an object literal. -/
def braced (members : List String) : String := "\x7b " ++ Text.joinStrings "; " members ++ " \x7d"

/-- A member of an object literal. -/
def member (key : String) (required : Bool) (type : String) : String :=
  key ++ (if required then "" else "?") ++ ": " ++ type

end TypedClients.TypeText
