import TypedClients.Json.Fault
import TypedClients.Value.Display

/-!
# What can stop the tool

Failures are causes, not texts: each constructor says what was found, and one function per
type gives the words. Five families stop a step of the tool:

* `InvalidModel`: settings or document parts that do not fit their declared shape;
* `Cause`: the tool's own refusals, each of an `ErrorKind` that fixes the exit code;
* `SystemFailure`: an operation on files that the file system refuses;
* `Mishap`: a value used in a way its kind does not allow;
* all of them together as `Failure`.

Mirrors `SwaggenError`. A refusal is one of the classes under `SwaggenError`, its `ErrorKind`;
a mishap is any other error that can leave a function.
-/

namespace TypedClients

/-! ## Models that do not fit -/

/-- A step into a model: a field or a list index. -/
inductive Step
  | field (name : String)
  | index (i : Int)
  deriving DecidableEq, Repr

/-- What is wrong with a value at a place of a model. -/
inductive Complaint
  | missing
  | notAString
  | notUnicode
  | notAList
  | notAnObject
  | notAMember
  | notABool
  | boolUnreadable
  | notAnInteger
  | integerUnreadable
  | integerTooLong
  | notWhole
  | notFinite
  | tooSmall
  deriving DecidableEq, Repr

/-- A complaint and where it applies. -/
structure Issue where
  place : List Step
  complaint : Complaint
  deriving DecidableEq, Repr

/-- The issues found in a value that should be of a named model, in field order. -/
structure InvalidModel where
  model : String
  issues : List Issue
  deriving DecidableEq, Repr

/-- The first line of the message about an invalid model. -/
def InvalidModel.message (m : InvalidModel) : String :=
  Number.natText m.issues.length ++
    (if m.issues.length = 1 then " validation error for " else " validation errors for ") ++ m.model

/-! ## The tool's own refusals -/

/-- The kinds of refusal (the classes under `SwaggenError`). -/
inductive ErrorKind
  | general
  | usage
  | spec
  | version
  | reference
  | generation
  | config
  deriving DecidableEq, Repr

namespace ErrorKind

/-- The process exit code of a kind (the `exit_code` of a class). -/
def exitCode : ErrorKind → Int
  | general => 1
  | usage => 2
  | spec => 7
  | version => 7
  | reference => 7
  | generation => 8
  | config => 1

/-- A kind followed by the kinds it is a special case of, up to the most general one. -/
def lineage : ErrorKind → List ErrorKind
  | general => [general]
  | version => [version, spec, general]
  | k => [k, general]

end ErrorKind

/-- Why a settings file is no settings. -/
inductive SettingsProblem
  | unreadable (error : Json.SyntaxError)
  | misfit (model : InvalidModel)
  deriving Repr

/-- The words for a problem of a settings file. -/
def SettingsProblem.message : SettingsProblem → String
  | unreadable error => error.message
  | misfit model => model.message

/-- What the tool refuses, and why. -/
inductive Cause
  /-- A refusal of a kind in given words. -/
  | stated (kind : ErrorKind) (words : String)
  | bothFileAndUrl
  | nameWithoutSource
  | noSources
  | notAnObject (found : String)
  | pathsNotAnObject
  | definitionsNotAnObject
  | directoryNotFound (path : String)
  | noInput
  | httpStatus (code : Int) (url : String)
  | unreachable (url : String) (problem : String)
  | fileNotFound (path : String)
  | fileEmpty (path : String)
  | fileUnreadable (path : String) (problem : String)
  | invalidJson (error : Json.SyntaxError)
  /-- Neither format could be read; the first error is absent when only YAML was tried. -/
  | invalidText (json : Option Json.SyntaxError)
  | versionMissing
  | versionUnsupported (found : String)
  | unresolvedReference (ref : String)
  | nestingTooDeep
  | configNotFound (path : String)
  | environmentConfigNotFound (path : String)
  | configUnreadable (path : String) (problem : String)
  | configInvalid (path : String) (problem : SettingsProblem)
  | configExists (path : String)
  | cleaningRefused (path : String)
  | outputNotADirectory (path : String)
  deriving Repr

namespace Cause

/-- The kind of a refusal. -/
def kind : Cause → ErrorKind
  | stated k _ => k
  | bothFileAndUrl | nameWithoutSource | noSources => .usage
  | notAnObject _ | pathsNotAnObject | definitionsNotAnObject | directoryNotFound _ | noInput
  | httpStatus _ _ | unreachable _ _ | fileNotFound _ | fileEmpty _ | fileUnreadable _ _
  | invalidJson _ | invalidText _ => .spec
  | versionMissing | versionUnsupported _ => .version
  | unresolvedReference _ => .reference
  | nestingTooDeep => .generation
  | configNotFound _ | environmentConfigNotFound _ | configUnreadable _ _ | configInvalid _ _
  | configExists _ | cleaningRefused _ | outputNotADirectory _ => .config

/-- The words of a refusal. -/
def message : Cause → String
  | stated _ words => words
  | bothFileAndUrl => "Use either --file or --url, not both"
  | nameWithoutSource => "--name requires --file or --url"
  | noSources => "No sources to generate. Pass --file/--url or list sources in swaggen.json"
  | notAnObject found => "Spec must be a JSON/YAML object (got " ++ found ++ ")"
  | pathsNotAnObject => "'paths' must be an object"
  | definitionsNotAnObject => "Schema definitions must be an object"
  | directoryNotFound path => "Spec directory not found: " ++ path
  | noInput => "No input received from stdin"
  | httpStatus code url => "HTTP " ++ Number.intText code ++ " fetching spec from " ++ url
  | unreachable url problem => "Failed to fetch spec from " ++ url ++ ": " ++ problem
  | fileNotFound path => "Spec file not found: " ++ path
  | fileEmpty path => "Spec file is empty: " ++ path
  | fileUnreadable path problem => "Failed to read spec file " ++ path ++ ": " ++ problem
  | invalidJson error => "Invalid JSON: " ++ error.message
  | invalidText json =>
    "Failed to parse spec as JSON or YAML" ++
      (match json with | some e => "\n  JSON error: " ++ e.message | none => "") ++
      "\n  YAML error: "
  | versionMissing =>
    "Missing version marker: expected \"swagger\": \"2.0\" or an \"openapi\" 3.x version"
  | versionUnsupported found =>
    "Unsupported spec version: " ++ found ++ ". Only Swagger 2.0 and OpenAPI 3.x are supported."
  | unresolvedReference ref => "Cannot resolve $ref '" ++ ref ++ "'"
  | nestingTooDeep => "Schema nesting too deep to render: maximum recursion depth exceeded"
  | configNotFound path => "Config file not found: " ++ path
  | environmentConfigNotFound path => "Config file from $SWAGGEN_CONFIG not found: " ++ path
  | configUnreadable path problem => "Cannot read config at " ++ path ++ ": " ++ problem
  | configInvalid path problem => "Invalid config at " ++ path ++ ": " ++ problem.message
  | configExists path => "Config already exists at " ++ path ++ "; not overwriting"
  | cleaningRefused path => "Refusing to clean " ++ path ++ ": not a generated output directory"
  | outputNotADirectory path => "Output path exists and is not a directory: " ++ path

/-- The issues of the model that a refusal is about. -/
def issues? : Cause → Option (List Issue)
  | configInvalid _ (.misfit model) => some model.issues
  | _ => none

/-- The reference a refusal is about. -/
def ref? : Cause → Option String
  | unresolvedReference ref => some ref
  | _ => none

/-- The refusal of a kind in given words; an unresolved reference is given by the reference. -/
def ofKind (kind : ErrorKind) (words : String) : Cause :=
  match kind with
  | .reference => unresolvedReference words
  | k => stated k words

end Cause

/-! ## The file system -/

/-- Why an operation on a path fails. -/
inductive SystemProblem
  | missing
  | exists
  | notADirectory
  | isADirectory
  | nameTooLong
  | tooManyLinks
  | notAllowed
  | accessDenied
  | inUse
  deriving DecidableEq, Repr

/-- The number and the words that the operating system has for a problem. -/
def SystemProblem.code : SystemProblem → Nat × String
  | missing => (2, "No such file or directory")
  | .exists => (17, "File exists")
  | notADirectory => (20, "Not a directory")
  | isADirectory => (21, "Is a directory")
  | nameTooLong => (36, "File name too long")
  | tooManyLinks => (40, "Too many levels of symbolic links")
  | notAllowed => (1, "Operation not permitted")
  | accessDenied => (13, "Permission denied")
  | inUse => (16, "Device or resource busy")

/-- A refused operation on a path. -/
structure SystemFailure where
  problem : SystemProblem
  path : String
  deriving DecidableEq, Repr

/-- The message of a refused operation. -/
def SystemFailure.message (f : SystemFailure) : String :=
  let (number, words) := f.problem.code
  "[Errno " ++ Number.natText number ++ "] " ++ words ++ ": " ++ Value.quoted f.path

/-! ## All failures -/

/-- What a whole number is too large for. -/
inductive Overflow
  | character
  | double
  deriving DecidableEq, Repr

/-- The words for an overflow. -/
def Overflow.message : Overflow → String
  | character => "Python int too large to convert to C int"
  | double => "int too large to convert to float"

/-- A value used in a way that its kind does not allow. -/
inductive Mishap
  | wrongType
  | wrongValue
  | missingKey
  | missingIndex
  | missingAttribute
  | notUnicode
  /-- A text to be encoded holds surrogate halves, after a number of characters. -/
  | notEncodable (before : Nat) (halves : List Nat)
  | overflow (target : Overflow)
  | tooDeep
  /-- Nothing tells where the home folder is. -/
  | noHome
  /-- The links on a path lead from one to the next without an end. -/
  | endlessLinks (path : String)
  deriving DecidableEq, Repr

/-- The word for a mishap. -/
def Mishap.name : Mishap → String
  | wrongType => "TypeError"
  | wrongValue => "ValueError"
  | missingKey => "KeyError"
  | missingIndex => "IndexError"
  | missingAttribute => "AttributeError"
  | notUnicode => "UnicodeDecodeError"
  | notEncodable _ _ => "UnicodeEncodeError"
  | overflow _ => "OverflowError"
  | tooDeep => "RecursionError"
  | noHome | endlessLinks _ => "RuntimeError"

/-- The words for a mishap where it is listed: its name, and what is known of it besides. -/
def Mishap.summary (m : Mishap) : String :=
  match m with
  | notEncodable before halves =>
    let place := match halves with
      | [half] => "character '\\u" ++ String.ofList (Text.hexText 4 half) ++ "' in position " ++
        Number.natText before
      | _ => "characters in position " ++ Number.natText before ++ "-" ++
        Number.natText (before + halves.length - 1)
    m.name ++ ": 'utf-8' codec can't encode " ++ place ++ ": surrogates not allowed"
  | overflow target => m.name ++ ": " ++ target.message
  | noHome => m.name ++ ": Could not determine home directory."
  | endlessLinks path => m.name ++ ": Symlink loop from " ++ Value.quoted path
  | _ => m.name

/-- Anything that stops a step. -/
inductive Failure
  | refused (cause : Cause)
  | invalid (model : InvalidModel)
  | system (failure : SystemFailure)
  | mishap (m : Mishap)
  deriving Repr

namespace Failure

/-- The text under which a failure is listed in a result. -/
def summary : Failure → String
  | refused c => c.message
  | system f => f.message
  | invalid m => "ValidationError: " ++ m.message
  | mishap m => m.summary

/-- Whether a failure is one of the tool's own refusals. -/
def isRefusal : Failure → Bool
  | refused _ => true
  | _ => false

end Failure

end TypedClients
