import TypedClients.Text.Blank
import TypedClients.Text.Digit
import TypedClients.Text.Lower

/-!
# Identifiers from free text

The ways in which a name of a document becomes a name of a program: joined words in Pascal or
camel case, a cleaned identifier, a quoted object key. Names are built of ASCII letters and
digits; all other characters are dropped on the way, but only after they have separated words
and after the first letters of words have been raised.

* `mem_pascalChars`: a Pascal-case name holds ASCII letters and digits only.
* `isIdentifier_identifier`: a cleaned identifier is an identifier.
* `identifierChars_eq_self_iff`: cleaning leaves a text alone exactly when it is an identifier.

Mirrors `to_pascal_case`, `to_camel_case`, `sanitize_identifier`, `render_property_name`,
`schema_type_name` and `parameter_argument_name`. The substitutions by pattern in
`to_pascal_case` are one pass over the characters, `joinWords`.
-/

namespace TypedClients.Naming

open Text (isAsciiDigit isAsciiLetter isBlank lowerAscii)

/-! ## Characters -/

/-- Whether a character is an ASCII letter or digit. -/
def isAlphanumeric (c : Char) : Bool := isAsciiLetter c || isAsciiDigit c

/-- Whether a character separates the words of a name. -/
def isSeparator (c : Char) : Bool := c = '-' || c = '_' || isBlank c

/-- Whether a character may begin an identifier. -/
def isIdentifierStart (c : Char) : Bool := isAsciiLetter c || c = '_' || c = '$'

/-- Whether a character may occur in an identifier. -/
def isIdentifierPart (c : Char) : Bool := isAlphanumeric c || c = '_' || c = '$'

/-- The capital of an ASCII letter; any other character is kept. -/
def upperAscii (c : Char) : Char :=
  if 'a'.toNat ≤ c.toNat ∧ c.toNat ≤ 'z'.toNat then Char.ofNat (c.toNat - 32) else c

/-- The characters outside ASCII whose capital form holds ASCII letters, with that form: sharp
s, the long s, the dotless i, ligatures, and letters whose mark becomes a character of its
own. -/
def capitalForms : List (Nat × List Char) :=
  [(0xDF, ['S', 'S']), (0x131, ['I']), (0x149, [Char.ofNat 0x2BC, 'N']), (0x17F, ['S']),
   (0x1F0, ['J', Char.ofNat 0x30C]), (0x1E96, ['H', Char.ofNat 0x331]),
   (0x1E97, ['T', Char.ofNat 0x308]), (0x1E98, ['W', Char.ofNat 0x30A]),
   (0x1E99, ['Y', Char.ofNat 0x30A]), (0x1E9A, ['A', Char.ofNat 0x2BE]), (0xFB00, ['F', 'F']),
   (0xFB01, ['F', 'I']), (0xFB02, ['F', 'L']), (0xFB03, ['F', 'F', 'I']), (0xFB04, ['F', 'F', 'L']),
   (0xFB05, ['S', 'T']), (0xFB06, ['S', 'T'])]

/-- The capital form of a character as far as names can show it: a character whose capital form is
outside ASCII is kept, since names drop both alike. -/
def capital (c : Char) : List Char :=
  if c.toNat < 0x80 then [upperAscii c]
  else match capitalForms.find? (·.1 = c.toNat) with
    | some (_, form) => form
    | none => [c]

/-! ## Case conversion -/

/-- The words of a text run together, each after the first raised. `raising` says that a separator
came just before. -/
def joinWords (raising : Bool) : List Char → List Char
  | [] => []
  | c :: rest =>
    if isSeparator c then joinWords true rest
    else (if raising then capital c else [c]) ++ joinWords false rest

/-- A text with its first character raised. -/
def raiseFirst : List Char → List Char
  | [] => []
  | c :: rest => capital c ++ rest

/-- A text with its first character lowered. -/
def lowerFirst : List Char → List Char
  | [] => []
  | c :: rest => lowerAscii c :: rest

/-- The Pascal-case form of a text. -/
def pascalChars (s : List Char) : List Char :=
  (raiseFirst (joinWords false s)).filter isAlphanumeric

/-- The Pascal-case name of a text (`to_pascal_case`). -/
def pascal (s : String) : String := String.ofList (pascalChars s.toList)

/-- The camel-case name of a text (`to_camel_case`). -/
def camel (s : String) : String := String.ofList (lowerFirst (pascalChars s.toList))

/-! ## Identifiers -/

/-- Whether a text is an identifier. -/
def isIdentifier : List Char → Bool
  | [] => false
  | c :: rest => isIdentifierStart c && rest.all isIdentifierPart

/-- A text without the characters that no identifier has; an underscore comes first if nothing
or a leading digit is left. -/
def identifierChars (s : List Char) : List Char :=
  match s.filter isIdentifierPart with
  | [] => ['_']
  | c :: rest => if isAsciiDigit c then '_' :: c :: rest else c :: rest

/-- The identifier made of a text (`sanitize_identifier`). -/
def identifier (s : String) : String := String.ofList (identifierChars s.toList)

/-- The type name of a schema definition (`schema_type_name`). -/
def typeName (definition : String) : String := identifier (pascal definition)

/-- The argument name of a path parameter (`parameter_argument_name`). -/
def argumentName (parameter : String) : String := identifier (camel parameter)

/-! ## Quoting -/

/-- A character inside single quotes. -/
def quotedChar (c : Char) : List Char := if c = '\\' ∨ c = '\x27' then ['\\', c] else [c]

/-- A text in single quotes. -/
def singleQuoted (s : String) : String :=
  String.ofList ('\x27' :: s.toList.flatMap quotedChar ++ ['\x27'])

/-- Whether an object key is written without quotes: it is an identifier, or one followed by a
line feed. -/
def isBareKey (s : List Char) : Bool :=
  isIdentifier s || (s.getLast? = some '\n' && isIdentifier s.dropLast)

/-- An object key as it is written (`render_property_name`). -/
def propertyKey (name : String) : String :=
  if isBareKey name.toList then name else singleQuoted name

/-! ## What the names are made of -/

theorem mem_pascalChars {s : List Char} {c : Char} (h : c ∈ pascalChars s) :
    isAlphanumeric c = true := (List.mem_filter.1 h).2

theorem isIdentifierPart_of_isAlphanumeric {c : Char} (h : isAlphanumeric c = true) :
    isIdentifierPart c = true := by
  simp [isIdentifierPart, h]

theorem isIdentifierStart_of_part {c : Char} (h : isIdentifierPart c = true)
    (hd : isAsciiDigit c = false) : isIdentifierStart c = true := by
  simp only [isIdentifierPart, isAlphanumeric, hd, Bool.or_false] at h
  exact h

theorem isIdentifier_identifierChars (s : List Char) : isIdentifier (identifierChars s) = true := by
  have parts : ∀ c ∈ s.filter isIdentifierPart, isIdentifierPart c = true :=
    fun c h => (List.mem_filter.1 h).2
  unfold identifierChars
  split
  next => decide
  next c rest heq =>
    rw [heq] at parts
    have hc := parts c List.mem_cons_self
    have hr : rest.all isIdentifierPart = true :=
      List.all_eq_true.2 fun d hd => parts d (List.mem_cons_of_mem _ hd)
    split
    next => simp [isIdentifier, isIdentifierStart, hc, hr]
    next hd =>
      simp [isIdentifier, isIdentifierStart_of_part hc (by simpa using hd), hr]

theorem isIdentifier_identifier (s : String) : isIdentifier (identifier s).toList = true := by
  rw [identifier, String.toList_ofList]
  exact isIdentifier_identifierChars s.toList

theorem isIdentifierPart_of_start {c : Char} (h : isIdentifierStart c = true) :
    isIdentifierPart c = true := by
  simp only [isIdentifierStart, isIdentifierPart, isAlphanumeric, Bool.or_eq_true] at h ⊢
  rcases h with (h | h) | h
  · exact Or.inl (Or.inl (Or.inl h))
  · exact Or.inl (Or.inr h)
  · exact Or.inr h

/-- Every character of an identifier may occur in one. -/
theorem isIdentifierPart_of_mem {s : List Char} (h : isIdentifier s = true) {c : Char}
    (hc : c ∈ s) : isIdentifierPart c = true := by
  cases s with
  | nil => cases hc
  | cons d rest =>
    rw [isIdentifier, Bool.and_eq_true, List.all_eq_true] at h
    rcases List.mem_cons.1 hc with rfl | hc
    · exact isIdentifierPart_of_start h.1
    · exact h.2 c hc

theorem not_digit_of_start {c : Char} (h : isIdentifierStart c = true) :
    isAsciiDigit c = false := by
  simp only [isIdentifierStart, isAsciiLetter, Bool.or_eq_true, Bool.and_eq_true,
    decide_eq_true_eq] at h
  have h0 : ('0' : Char).toNat = 48 := rfl
  have h9 : ('9' : Char).toNat = 57 := rfl
  have ha : ('a' : Char).toNat = 97 := rfl
  have hA : ('A' : Char).toNat = 65 := rfl
  simp only [isAsciiDigit, Bool.and_eq_false_iff, decide_eq_false_iff_not, h0, h9]
  rcases h with (h | rfl) | rfl
  · omega
  · decide
  · decide

theorem identifierChars_eq_self_iff {s : List Char} :
    identifierChars s = s ↔ isIdentifier s = true := by
  constructor
  · intro h
    rw [← h]
    exact isIdentifier_identifierChars s
  · intro h
    cases s with
    | nil => simp [isIdentifier] at h
    | cons c rest =>
      have hstart : isIdentifierStart c = true := (Bool.and_eq_true_iff.1 h).1
      have hf : (c :: rest).filter isIdentifierPart = c :: rest :=
        List.filter_eq_self.2 fun _ hd => isIdentifierPart_of_mem h hd
      simp [identifierChars, hf, not_digit_of_start hstart]

end TypedClients.Naming
