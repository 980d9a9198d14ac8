import TypedClients.Text.Blank

/-!
# The text of a generated file

A generated file starts with a header that warns against editing it. At most one empty line stands
between two others, none at the start or the end, and one line end ends the file.

Mirrors `format_file`. The pattern by which `format_file` shortens runs of line ends is a pass
that counts them.
-/

namespace TypedClients.Writing

/-- A header with a title. -/
def header (title : String) : String :=
  "/**\n * Auto-generated " ++ title ++
    "\n * DO NOT EDIT - This file is generated from Swagger/OpenAPI specification\n */"

/-- The header of a file of types. -/
def typesHeader : String := header "TypeScript types"

/-- The header of a client. -/
def clientHeader : String := header "API Client"

/-- How many line ends may follow one another. -/
def maxBreaks : Nat := 2

/-- A text with runs of line ends cut to the greatest length allowed; `seen` is the length of
the run before it. -/
def limitBreaks (seen : Nat) : List Char → List Char
  | [] => []
  | c :: rest =>
    if c = '\n' then
      if seen < maxBreaks then c :: limitBreaks (seen + 1) rest else limitBreaks seen rest
    else c :: limitBreaks 0 rest

/-- The text of a file with a header and a body (`format_file`). -/
def fileText (body header : String) : String :=
  let text := header.toList ++ ['\n', '\n'] ++ body.toList
  String.ofList (Text.trim (limitBreaks 0 text) ++ ['\n'])

end TypedClients.Writing
