import TypedClients.Json.Reader
import TypedClients.Report.Failure
import TypedClients.Yaml.Unfolding

/-!
# From a text to a decoded document

A document is written in JSON or in YAML. Where it comes from may say which; otherwise JSON is
tried first, because its refusals are more telling. Either way the text has to be an object.

Mirrors `_parse_content` and `_require_mapping`.
-/

namespace TypedClients

/-- What is known about the format of a text. -/
inductive Format
  | json
  | yaml
  | unknown
  deriving DecidableEq, Repr

namespace Document

/-- What an error message calls a value that is no object. -/
def foundName : Value → String
  | .null => "empty document"
  | v => v.kindName

/-- Refuses a value that is no object (`_require_mapping`). -/
def requireObject (v : Value) : Except Failure Value :=
  if v.isMap then .ok v else .error (.refused (.notAnObject (foundName v)))

/-- Decodes a text as YAML; the error is that of JSON if it was tried before. -/
def decodeYaml (text : String) (error : Option Json.SyntaxError) : Except Failure Value :=
  match Yaml.read text with
  | .ok v => requireObject v
  | .error .malformed => .error (.refused (.invalidText error))
  | .error (.mishap m) => .error (.mishap m)

/-- Decodes a text in a format (`_parse_content`). -/
def decode (format : Format) (text : String) : Except Failure Value :=
  if format = .yaml then decodeYaml text none
  else match Json.read text with
    | .ok v => requireObject v
    | .error e =>
      if !e.isFormal then .error (.mishap .wrongValue)
      else if format = .json then .error (.refused (.invalidJson e)) else decodeYaml text (some e)

end Document

end TypedClients
