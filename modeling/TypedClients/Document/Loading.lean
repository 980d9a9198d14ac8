import TypedClients.Document.Decoding
import TypedClients.Files.Session
import TypedClients.Text.Charset

/-!
# Where documents come from

A document is read from standard input, fetched from the network, or read from a file. The
ending of a file's name and the content type of an answer tell the format; the content type
also tells the character set.

Mirrors `load_spec`, `_load_from_stdin`, `_load_from_url`, `_load_from_file` and
`list_spec_files`. What the network answers is part of the surroundings; the time limit of a
request is left out.
-/

namespace TypedClients.Document

open Files (Path Session Reply)

/-- How the location of standard input is written. -/
def standardInput : String := "-"

/-- Whether a location is on the network. -/
def isRemote (location : String) : Bool :=
  "http://".toList.isPrefixOf location.toList || "https://".toList.isPrefixOf location.toList

/-- The format that a content type names. -/
def formatOfContentType (contentType : String) : Format :=
  let mentioned (word : String) : Bool := Text.contains word.toList contentType.toList
  if mentioned "json" then .json
  else if mentioned "yaml" || mentioned "yml" then .yaml
  else .unknown

/-- The format that the ending of a name tells. -/
def formatOfEnding (ending : String) : Format :=
  if ending = ".json" then .json
  else if ending = ".yaml" || ending = ".yml" then .yaml
  else .unknown

/-- Whether a text is empty but for blanks. -/
def isBlankText (s : String) : Bool := Text.isAllBlank s.toList

/-- The document on standard input (`_load_from_stdin`). -/
def ofInput : Session Value := do
  let text ← Session.takeInput
  if isBlankText text then Session.refuse .noInput
  Session.ofExcept (decode .unknown text)

/-- Whether a status says that a request was answered. -/
def isSuccess (status : Int) : Bool := 200 ≤ status && status < 300

/-- What an answer is taken as where the network has none. -/
def noReply : Reply := .failed "connection refused"

/-- The document at a location on the network (`_load_from_url`). -/
def ofRemote (url : String) : Session Value := do
  Session.debug .loading ("Fetching spec from " ++ url)
  match ((← Session.surroundings).replies.lookup url).getD noReply with
  | .failed problem => Session.refuse (.unreachable url problem)
  | .answered status contentType body =>
    if !isSuccess status then Session.refuse (.httpStatus status url)
    let text := (Text.Charset.ofContentType contentType.toList).reread body.toList
    Session.ofExcept (decode (formatOfContentType contentType) (String.ofList text))

/-- The document in a file (`_load_from_file`). -/
def ofFile (location : String) : Session Value := do
  let path := Path.ofString location
  if !(← Session.hasFile path) then Session.refuse (.fileNotFound location)
  let text ← (Session.readText path).refusing fun f => .fileUnreadable location f.message
  if isBlankText text then Session.refuse (.fileEmpty location)
  Session.ofExcept (decode (formatOfEnding path.ending) text)

/-- The decoded document at a location (`load_spec`). -/
def fetch (location : String) : Session Value :=
  if location = standardInput then ofInput
  else if isRemote location then ofRemote location
  else ofFile location

/-- The files in a folder whose names end as those of documents do, sorted by name
(`list_spec_files`). -/
def filesIn (location : String) : Session (List Path) := do
  let folder := Path.ofString location
  if !(← Session.hasFolder folder) then Session.refuse (.directoryNotFound location)
  (← Session.contents folder).filterM fun p => do
    return formatOfEnding p.ending ≠ .unknown && (← Session.hasFile p)

end TypedClients.Document
