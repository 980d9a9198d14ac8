import TypedClients.Report.Failure
import TypedClients.Text.Pieces

/-!
# Steps that report as they go

`Logged α` is a result together with the notices written on the way to it; `Checked α` may also
fail, and keeps the notices of a failed step. Both are plain data, so that what was logged can be
stated like any other result.

* `Logged.value_bind`, `Logged.log_bind`: a sequence of steps has the value of its last step
  and the notices of all of them, in order.

A notice is what goes to a logger, whose name is its `Origin`.
-/

namespace TypedClients

/-- How important a notice is. -/
inductive Level
  | debug
  | warning
  deriving DecidableEq, Repr

/-- The part of the tool that writes a notice. -/
inductive Origin
  | loading
  | document
  | extraction
  | types
  | generation
  | writing
  | running
  | settings
  deriving DecidableEq, Repr

/-- The name under which a part of the tool writes. -/
def Origin.name : Origin → String
  | loading => "swaggen.parser.loader"
  | document => "swaggen.parser.resolver"
  | extraction => "swaggen.parser.extractor"
  | types => "swaggen.generator.typegen"
  | generation => "swaggen.generator.pipeline"
  | writing => "swaggen.writer"
  | running => "swaggen.runner"
  | settings => "swaggen.config"

/-- A message written on the way. -/
structure Notice where
  level : Level
  origin : Origin
  text : String
  deriving DecidableEq, Repr

/-- The column for levels, which is as wide for each of them. -/
def Level.column : Level → String
  | debug => "DEBUG    "
  | warning => "WARNING  "

/-- How a notice is shown. Its level stands in a column of its own, which stays empty beside
the further lines of a longer text. -/
def Notice.shown (n : Notice) : String :=
  n.level.column ++
    Text.joinStrings "\n         " (Text.splitString '\n' (n.origin.name ++ ": " ++ n.text))

/-- A result with the notices written on the way to it. -/
structure Logged (α : Type) where
  value : α
  log : List Notice

namespace Logged

/-- A result without notices. -/
protected def pure {α : Type} (a : α) : Logged α := ⟨a, []⟩

/-- One step after another. -/
protected def bind {α β : Type} (x : Logged α) (f : α → Logged β) : Logged β :=
  ⟨(f x.value).value, x.log ++ (f x.value).log⟩

instance : Monad Logged where
  pure := Logged.pure
  bind := Logged.bind

/-- Writes a notice. -/
def note (level : Level) (origin : Origin) (text : String) : Logged Unit :=
  ⟨(), [⟨level, origin, text⟩]⟩

/-- Writes a notice for those who follow each step. -/
def debug (origin : Origin) (text : String) : Logged Unit := note .debug origin text

/-- Writes a notice about something dropped or doubtful. -/
def warn (origin : Origin) (text : String) : Logged Unit := note .warning origin text

/-- The warnings among the notices. -/
def warnings {α : Type} (x : Logged α) : List String :=
  (x.log.filter (·.level = .warning)).map Notice.text

@[simp] theorem value_pure {α : Type} (a : α) : (pure a : Logged α).value = a := rfl

@[simp] theorem log_pure {α : Type} (a : α) : (pure a : Logged α).log = [] := rfl

@[simp] theorem value_bind {α β : Type} (x : Logged α) (f : α → Logged β) :
    (x >>= f).value = (f x.value).value := rfl

@[simp] theorem log_bind {α β : Type} (x : Logged α) (f : α → Logged β) :
    (x >>= f).log = x.log ++ (f x.value).log := rfl

instance : LawfulMonad Logged := LawfulMonad.mk' Logged
  (fun x => by cases x; simp [Functor.map, Logged.bind, Logged.pure])
  (fun a f => by simp [Pure.pure, Bind.bind, Logged.pure, Logged.bind])
  (fun x f g => by simp [Bind.bind, Logged.bind, List.append_assoc])

end Logged

/-- A step that reports and may fail; the notices of a failed step are kept. -/
abbrev Checked (α : Type) := ExceptT Failure Logged α

namespace Checked

/-- A step that only reports. -/
def logged {α : Type} (x : Logged α) : Checked α := ExceptT.lift x

/-- A step that only may fail. -/
def ofExcept {α : Type} (x : Except Failure α) : Checked α := ExceptT.mk (pure x)

/-- Writes a notice for those who follow each step. -/
def debug (origin : Origin) (text : String) : Checked Unit := logged (.debug origin text)

/-- Writes a notice about something dropped or doubtful. -/
def warn (origin : Origin) (text : String) : Checked Unit := logged (.warn origin text)

/-- A step whose failures are reported as others. -/
def reporting {α : Type} (f : Failure → Failure) (x : Checked α) : Checked α :=
  ExceptT.mk ((fun r => r.mapError f) <$> x.run)

/-- The outcome of a step. -/
def outcome {α : Type} (x : Checked α) : Except Failure α := x.run.value

/-- The notices of a step. -/
def log {α : Type} (x : Checked α) : List Notice := x.run.log

end Checked

end TypedClients
