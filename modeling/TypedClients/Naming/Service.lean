import TypedClients.Naming.Identifier

/-!
# The name of a service

A service is named after the title of its document: the generic words *api* and *service* are
taken out of the title, also from inside other words, and `Service` is put behind what is
left.

Mirrors `derive_service_name`.
-/

namespace TypedClients.Naming

open Text (lowerAscii)

/-- The name of a service whose title gives none. -/
def defaultServiceName : String := "ApiService"

/-- Whether a character is a form of an ASCII lower-case letter, cases aside. The letters `i`
and `s` have forms outside ASCII. -/
def isFormOf (letter c : Char) : Bool :=
  lowerAscii c = letter ||
    (letter = 'i' && (c.toNat = 0x130 || c.toNat = 0x131)) || (letter = 's' && c.toNat = 0x17F)

/-- The text after a word, if it begins with the word, cases aside. -/
def afterWord? : List Char → List Char → Option (List Char)
  | [], s => some s
  | _ :: _, [] => none
  | letter :: word, c :: rest => if isFormOf letter c then afterWord? word rest else none

/-- The words that say nothing about a service. -/
def genericWords : List (List Char) := ["api".toList, "service".toList]

/-- A text without the generic words. `skip` counts the characters of a word still to be
dropped. -/
def withoutGeneric : Nat → List Char → List Char
  | _, [] => []
  | skip + 1, _ :: rest => withoutGeneric skip rest
  | 0, c :: rest =>
    match genericWords.find? fun w => (afterWord? w (c :: rest)).isSome with
    | some w => withoutGeneric (w.length - 1) rest
    | none => c :: withoutGeneric 0 rest

/-- The name of a service, from the title of its document or as given (`derive_service_name`). -/
def serviceName (title override : Option String) : String :=
  match override.filter (· ≠ "") with
  | some name => name
  | none =>
    let rest := Text.trim (withoutGeneric 0 (title.getD "").toList)
    let name := pascal (String.ofList rest)
    if name = "" then defaultServiceName else name ++ "Service"

end TypedClients.Naming
