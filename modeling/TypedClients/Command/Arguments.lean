import TypedClients.Text.Pieces

/-!
# Arguments on a command line

An option has long names and perhaps a letter. Letters may be joined behind one dash; a value
follows in the same argument or in the next one. Two dashes end the options. Arguments that
are no options are kept in order; where a command name is expected, the first of them ends the
options too.
-/

namespace TypedClients.Command

/-- An option, known to its command under a key. -/
structure OptionForm (κ : Type) where
  key : κ
  long : String
  letter : Option Char
  takesValue : Bool

/-- An option that was given, with its value if it takes one. -/
structure GivenOption (κ : Type) where
  key : κ
  value : String
  deriving DecidableEq, Repr

/-- The options that were given and the other arguments. -/
structure Arguments (κ : Type) where
  options : List (GivenOption κ)
  others : List String

namespace Arguments

variable {κ : Type}

/-- Options joined behind one dash. The rest of the argument, or else the next one, is the
value of an option that takes one. -/
def joined (forms : List (OptionForm κ)) (rest : List String) :
    List Char → Option (List (GivenOption κ) × List String)
  | [] => some ([], rest)
  | c :: cs => do
    let form ← forms.find? (·.letter = some c)
    if form.takesValue then
      if cs.isEmpty then
        match rest with
        | value :: rest => some ([⟨form.key, value⟩], rest)
        | [] => none
      else some ([⟨form.key, String.ofList cs⟩], rest)
    else
      let (given, rest) ← joined forms rest cs
      some (⟨form.key, ""⟩ :: given, rest)

/-- The name of a long option and the value that is attached to it. -/
def splitLong (argument : String) : String × Option String :=
  let cs := argument.toList
  if cs.contains '=' then
    (String.ofList (cs.takeWhile (· ≠ '=')), some (String.ofList ((cs.dropWhile (· ≠ '=')).drop 1)))
  else (argument, none)

/-- A long option; `none` if there is none of that name or its value is missing or one too
many. -/
def long (form : OptionForm κ) (attached : Option String) (rest : List String) :
    Option (List (GivenOption κ) × List String) :=
  match form.takesValue, attached, rest with
  | true, some value, _ => some ([⟨form.key, value⟩], rest)
  | true, none, value :: rest => some ([⟨form.key, value⟩], rest)
  | true, none, [] => none
  | false, none, _ => some ([⟨form.key, ""⟩], rest)
  | false, some _, _ => none

/-- The options that one argument begins, and the arguments after them. -/
def option (forms : List (OptionForm κ)) (argument : String) (rest : List String) :
    Option (List (GivenOption κ) × List String) :=
  let (name, attached) := splitLong argument
  match forms.find? (·.long = name) with
  | some form => long form attached rest
  | none =>
    if "--".toList.isPrefixOf argument.toList then none
    else joined forms rest (argument.toList.drop 1)

/-- Whether an argument is an option. -/
def isOption (argument : String) : Bool :=
  argument.toList.head? = some '-' && argument ≠ "-"

/-- Reads arguments. With `stopAtOther` the first argument that is no option ends the options. -/
def readFrom (forms : List (OptionForm κ)) (stopAtOther : Bool) :
    Nat → List String → Option (Arguments κ)
  | _, [] => some ⟨[], []⟩
  | 0, _ => none
  | allowance + 1, argument :: rest =>
    if argument = "--" then some ⟨[], rest⟩
    else if isOption argument then do
      let (given, rest) ← option forms argument rest
      let a ← readFrom forms stopAtOther allowance rest
      some ⟨given ++ a.options, a.others⟩
    else if stopAtOther then some ⟨[], argument :: rest⟩
    else do
      let a ← readFrom forms stopAtOther allowance rest
      some { a with others := argument :: a.others }

/-- Reads arguments; `none` if they do not have the form that the options ask for. -/
def read (forms : List (OptionForm κ)) (stopAtOther : Bool) (arguments : List String) :
    Option (Arguments κ) :=
  readFrom forms stopAtOther arguments.length arguments

/-- Whether an option was given. -/
def has [DecidableEq κ] (a : Arguments κ) (key : κ) : Bool := a.options.any (·.key = key)

/-- The value of an option; of several the last one counts. -/
def value? [DecidableEq κ] (a : Arguments κ) (key : κ) : Option String :=
  (a.options.reverse.find? (·.key = key)).map GivenOption.value

end Arguments

end TypedClients.Command
