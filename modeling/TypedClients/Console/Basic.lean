import TypedClients.Json.Printer
import TypedClients.Report.Log
import TypedClients.Value.Same

/-!
# What a user sees

Data goes to standard output and everything else to standard error, so that the output of the
tool can be piped. A console has a style for data and decides which messages are shown.

Mirrors `OutputFormat`, `OutputManager`, `_should_disable_color` and `configure_logging`. What
these print is returned as a `Printed`; colours and the frames of a table on a terminal are
left out.
-/

namespace TypedClients

/-- Texts for standard output and for standard error. -/
structure Printed where
  out : String
  err : String
  deriving DecidableEq, Repr

namespace Printed

/-- Nothing. -/
def nothing : Printed := ⟨"", ""⟩

/-- One text after another, on both sides. -/
protected def append (a b : Printed) : Printed := ⟨a.out ++ b.out, a.err ++ b.err⟩

instance : Append Printed := ⟨Printed.append⟩

/-- A line of data. -/
def data (text : String) : Printed := ⟨text ++ "\n", ""⟩

/-- A message. -/
def message (text : String) : Printed := ⟨"", text ++ "\n"⟩

/-- Texts one after another. -/
def all (ps : List Printed) : Printed := ps.foldl (· ++ ·) nothing

end Printed

/-- A style for data (`OutputFormat`). -/
inductive Style
  | auto
  | json
  | plain
  | rich
  deriving DecidableEq, Repr

/-- The word for a style. -/
def Style.word : Style → String
  | auto => "auto"
  | json => "json"
  | plain => "plain"
  | rich => "rich"

/-- The style that a word names. -/
def Style.ofWord? (word : String) : Option Style :=
  [auto, json, plain, rich].find? (·.word = word)

/-- How to talk to a user (`OutputManager`). -/
structure Console where
  style : Style
  quiet : Bool
  verbose : Bool
  deriving DecidableEq, Repr

namespace Console

/-- Whether the environment asks for output without colours (`_should_disable_color`). -/
def avoidsColour (environment : List (String × String)) : Bool :=
  (environment.lookup "NO_COLOR").isSome || environment.lookup "TERM" = some "dumb"

/-- A console in an environment. The automatic style is rich only on a terminal with colours. -/
def ofEnvironment (style : Style) (noColour quiet verbose isTerminal : Bool)
    (environment : List (String × String)) : Console :=
  let settled := match style with
    | .auto => if isTerminal && !(noColour || avoidsColour environment) then .rich else .plain
    | s => s
  ⟨settled, quiet, verbose⟩

/-! ## Data -/

/-- A value in JSON (`OutputManager.print_json`). -/
def json (v : Value) : Printed := .data (Json.pretty v)

/-- A row of a table as an object. -/
def record (headers row : List String) : Value :=
  .map ((headers.zip row).foldl (fun es (h, cell) => Value.upsert (.str h) (.str cell) es) [])

/-- A table (`OutputManager.print_table`): an array of objects in JSON, lines with tabs
otherwise. -/
def table (c : Console) (headers : List String) (rows : List (List String)) : Printed :=
  if c.style = .json then json (.list (rows.map (record headers)))
  else .all ((headers :: rows).map fun row => .data (Text.joinStrings "\t" row))

/-! ## Messages -/

/-- A message that a quiet console drops. -/
def unlessQuiet (c : Console) (text : String) : Printed :=
  if c.quiet then .nothing else .message text

/-- News about the progress of the work. -/
def info (c : Console) (text : String) : Printed := c.unlessQuiet text

/-- News about something that was done. -/
def success (c : Console) (text : String) : Printed := c.unlessQuiet text

/-- A hint at what to do next. -/
def suggest (c : Console) (text : String) : Printed := c.unlessQuiet ("→ " ++ text)

/-- A warning. -/
def warning (text : String) : Printed := .message ("Warning: " ++ text)

/-- An error. -/
def error (text : String) : Printed := .message ("Error: " ++ text)

/-- A message for those who want to know every step. -/
def debug (c : Console) (text : String) : Printed :=
  if c.verbose then .message ("[debug] " ++ text) else .nothing

/-- Whether a console shows a notice (`configure_logging`). -/
def shows (c : Console) (n : Notice) : Bool := c.verbose || n.level = .warning

/-- The notices that a console shows. -/
def notices (c : Console) (log : List Notice) : Printed :=
  .all ((log.filter c.shows).map fun n => .message n.shown)

end Console

end TypedClients
