import TypedClients.Proofs.TypeText.ObjectLiterals

/-!
# Reading a file of types

A file of types is read without the table it was made from: declarations follow one another, with
blanks between them. An interface goes on with one object type, an alias with an equals sign, any
type and a semicolon. Where a type ends is found by the reader of type expressions.

* `Declaration.readAll_declarations`: from the text of a file the declarations of its types
  are read, in their order.
-/

namespace TypedClients

open Naming (isIdentifier isIdentifierPart)
open TypeText (Alternatives Ends Shaped readUnion)

/-- A declaration as it stands in a text. -/
structure Declaration where
  /-- Whether it declares an interface; if not, it declares an alias. -/
  isInterface : Bool
  name : String
  body : String
  /-- All of it, from its first word to its last character. -/
  text : String
  deriving DecidableEq, Repr

namespace Declaration

/-! ## The reader -/

/-- What stands in front of a rest of a text. -/
def consumed (s rest : List Char) : String := String.ofList (s.take (s.length - rest.length))

/-- A name between two fixed texts, and the text after the second one. -/
def readNamed (opening between s : List Char) : Option (String × List Char) := do
  let s ← s.dropPrefix? opening
  let name := s.takeWhile isIdentifierPart
  let rest ← (s.dropWhile isIdentifierPart).dropPrefix? between
  if isIdentifier name then some (String.ofList name, rest) else none

/-- A type, and the text after it. -/
def readType (s : List Char) : Option (TypeTree × List Char) := readUnion (4 * s.length + 3) s

/-- An interface: its body is an object. -/
def readInterface (s : List Char) : Option (Declaration × List Char) := do
  let (name, inside) ← readNamed "export interface ".toList " ".toList s
  let (τ, rest) ← readType inside
  if τ.isObject then some (⟨true, name, consumed inside rest, consumed s rest⟩, rest) else none

/-- An alias: its body is any type, a semicolon ends it. -/
def readAlias (s : List Char) : Option (Declaration × List Char) := do
  let (name, inside) ← readNamed "export type ".toList " = ".toList s
  let (_, rest) ← readType inside
  match rest with
  | ';' :: after => some (⟨false, name, consumed inside rest, consumed s after⟩, after)
  | _ => none

/-- Declarations up to the end of a text; the first argument bounds how many are read. -/
def readFrom : Nat → List Char → Option (List Declaration)
  | 0, _ => none
  | n + 1, s =>
    match Text.trimStart s with
    | [] => some []
    | c :: s => do
      let (x, rest) ← readInterface (c :: s) <|> readAlias (c :: s)
      return x :: (← readFrom n rest)

/-- The declarations that a text consists of. -/
def readAll (text : String) : Option (List Declaration) :=
  readFrom (text.toList.length + 1) text.toList

/-! ## One declaration -/

theorem consumed_append (t rest : List Char) : consumed (t ++ rest) rest = String.ofList t := by
  rw [consumed, List.length_append, Nat.add_sub_cancel, List.take_left]

/-- A name is read up to the text behind it, which begins with a blank. -/
theorem readNamed_append (opening between : List Char) {name : List Char}
    (hname : isIdentifier name = true) (hbetween : between.head? = some ' ') (rest : List Char) :
    readNamed opening between (opening ++ (name ++ (between ++ rest))) =
      some (String.ofList name, rest) := by
  have hparts : ∀ c, c ∈ name → isIdentifierPart c = true :=
    fun _ hc => Naming.isIdentifierPart_of_mem hname hc
  obtain ⟨b, rfl⟩ : ∃ b, between = ' ' :: b := by
    cases between with
    | nil => cases hbetween
    | cons c b => exact ⟨b, by rw [Option.some.inj hbetween]⟩
  have htake : (name ++ (' ' :: b ++ rest)).takeWhile isIdentifierPart = name := by
    rw [List.takeWhile_append_of_pos hparts]
    exact List.append_nil name
  have hdrop : (name ++ (' ' :: b ++ rest)).dropWhile isIdentifierPart = ' ' :: b ++ rest := by
    rw [List.dropWhile_append_of_pos hparts]
    rfl
  have hopening := List.dropPrefix?_append_of_beq (name ++ (' ' :: b ++ rest)) (BEq.refl opening)
  have hafter := List.dropPrefix?_append_of_beq rest (BEq.refl (' ' :: b))
  rw [readNamed, hopening]
  simp only [Option.bind_eq_bind, Option.bind_some, htake, hdrop, hafter, hname, if_true]

/-- A type is read up to where it ends. -/
theorem readType_append {t rest : List Char} {τ : TypeTree} (h : Alternatives t τ)
    (hrest : Ends ['|', '&'] rest) : readType (t ++ rest) = some (τ, rest) :=
  h.reads hrest (by rw [List.length_append]; omega)

end Declaration

namespace GeneratedType

/-- A type is declared in the words of the language: its name is an identifier, its body is
read as a type, and looks like an object exactly if it is one. -/
structure Declarable (g : GeneratedType) : Prop where
  name : isIdentifier g.name.toList = true
  body : ∃ δ, Shaped g.body δ

/-- The declaration of a type, as it is read. -/
def asRead (g : GeneratedType) : Declaration :=
  ⟨TypeText.isObjectLiteral g.body.toList, g.name, g.body, g.declaration⟩

/-- What follows on a declaration: a blank line, and another declaration or the end. -/
inductive Follows : List Char → Prop
  | last : Follows ['\n', '\n']
  | next (rest : List Char) : Follows ('\n' :: '\n' :: 'e' :: rest)

theorem Follows.ends {rest : List Char} (h : Follows rest) : Ends ['|', '&'] rest := by
  cases h with
  | last =>
    refine ⟨fun c hc => ?_, fun _ => rfl, fun c after h => nomatch h⟩
    obtain rfl : '\n' = c := Option.some.inj hc
    decide
  | next rest =>
    refine ⟨fun c hc => ?_, fun _ => rfl, fun c after h => ?_⟩
    · obtain rfl : '\n' = c := Option.some.inj hc
      decide
    · obtain rfl : 'e' = c := (List.cons.inj h).1
      decide

open Declaration

/-- The declaration of a type is read as what it declares, whatever declarations follow. -/
theorem read_declaration {g : GeneratedType} (h : g.Declarable) {rest : List Char}
    (hrest : Follows rest) :
    (readInterface (g.declaration.toList ++ rest) <|> readAlias (g.declaration.toList ++ rest)) =
      some (g.asRead, rest) := by
  obtain ⟨δ, ⟨τ, hτ, hsame⟩, hdelimited⟩ := h.body
  have hobject : TypeText.isObjectLiteral g.body.toList = τ.isObject := by
    rw [TypeText.isObjectLiteral_of_delimited hdelimited, hsame.isObject]
  unfold asRead declaration
  rw [hobject]
  cases hkind : τ.isObject with
  | true =>
    have htext : ("export interface " ++ g.name ++ " " ++ g.body).toList ++ rest =
        "export interface ".toList ++
        (g.name.toList ++ (" ".toList ++ (g.body.toList ++ rest))) := by
      simp only [String.toList_append, List.append_assoc]
    have hnamed := readNamed_append "export interface ".toList " ".toList h.name rfl
      (g.body.toList ++ rest)
    rw [if_pos rfl, readInterface, htext, hnamed, ← htext]
    simp only [Option.bind_eq_bind, Option.bind_some, readType_append hτ hrest.ends, hkind, if_true,
      consumed_append, String.ofList_toList]
    rfl
  | false =>
    have htext : ("export type " ++ g.name ++ " = " ++ g.body ++ ";").toList ++ rest =
        "export type ".toList ++ (g.name.toList ++ (" = ".toList ++
          (g.body.toList ++ (';' :: rest)))) := by
      simp only [String.toList_append, List.append_assoc]
      rfl
    -- the first word after the export is not the one of an interface
    have hother : readInterface
      (("export type " ++ g.name ++ " = " ++ g.body ++ ";").toList ++ rest) =
        none := by
      rw [htext]
      rfl
    have hends : Ends ['|', '&'] (';' :: rest) :=
      TypeText.ends_append (Or.inl rfl) (by decide) (by decide) rest
    have hnamed := readNamed_append "export type ".toList " = ".toList h.name rfl
      (g.body.toList ++ (';' :: rest))
    rw [if_neg Bool.false_ne_true, hother, readAlias, htext, hnamed, ← htext]
    simp only [Option.bind_eq_bind, Option.bind_some, readType_append hτ hends, consumed_append,
      String.ofList_toList]
    rfl

/-! ## A file of types -/

theorem toList_declarations_cons (g : GeneratedType) (types : List GeneratedType) :
    (declarations (g :: types)).toList =
      g.declaration.toList ++ ('\n' :: '\n' :: (declarations types).toList) := by
  rw [declarations, List.map_cons, String.join_cons, String.toList_append, String.toList_append,
    List.append_assoc]
  rfl

/-- Every declaration begins with the word for what other files see. -/
theorem exists_declaration (g : GeneratedType) : ∃ rest, g.declaration.toList = 'e' :: rest := by
  unfold declaration
  split
  · exact ⟨_, by simp only [String.toList_append]; rfl⟩
  · exact ⟨_, by simp only [String.toList_append]; rfl⟩

theorem follows_declarations (types : List GeneratedType) :
    Follows ('\n' :: '\n' :: (declarations types).toList) := by
  cases types with
  | nil => exact .last
  | cons g types =>
    obtain ⟨rest, hrest⟩ := exists_declaration g
    rw [toList_declarations_cons, hrest]
    exact .next _

theorem length_le_length_declarations (types : List GeneratedType) :
    types.length ≤ (declarations types).toList.length := by
  induction types with
  | nil => exact Nat.le_refl 0
  | cons g types ih =>
    rw [toList_declarations_cons, List.length_append, List.length_cons, List.length_cons,
      List.length_cons]
    omega

end GeneratedType

namespace Declaration

open GeneratedType

/-- The declarations of types are read one after the other. -/
theorem readFrom_declarations {types : List GeneratedType} (h : ∀ g, g ∈ types → g.Declarable)
    {n : Nat} (hn : types.length < n) {s : List Char}
    (hs : Text.trimStart s = (declarations types).toList) :
    readFrom n s = some (types.map asRead) := by
  induction types generalizing n s with
  | nil =>
    obtain ⟨n, rfl⟩ := Nat.exists_eq_add_of_lt hn
    rw [readFrom, hs]
    rfl
  | cons g types ih =>
    obtain ⟨m, rfl⟩ : ∃ m, n = m + 1 := ⟨n - 1, by rw [List.length_cons] at hn; omega⟩
    obtain ⟨rest, hrest⟩ := exists_declaration g
    have hone := read_declaration (h g List.mem_cons_self) (follows_declarations types)
    -- between declarations there is a blank line, which is skipped
    have hskip : Text.trimStart ('\n' :: '\n' :: (declarations types).toList) =
        (declarations types).toList := by
      cases types with
      | nil => rfl
      | cons g' types =>
        obtain ⟨rest', hrest'⟩ := exists_declaration g'
        rw [toList_declarations_cons, hrest']
        rfl
    have hothers := ih (fun g' hg' => h g' (List.mem_cons_of_mem _ hg'))
      (Nat.lt_of_succ_lt_succ hn) hskip
    rw [toList_declarations_cons, hrest, List.cons_append] at hs
    rw [hrest, List.cons_append] at hone
    rw [readFrom, hs]
    simp only [hone, Option.bind_eq_bind, Option.bind_some, hothers]
    rfl

/-- A file of types declares these types and nothing else: each is read back with its name,
its body and its whole text, in the order of the file. -/
theorem readAll_declarations {types : List GeneratedType} (h : ∀ g, g ∈ types → g.Declarable) :
    readAll (declarations types) = some (types.map asRead) := by
  have hstart : Text.trimStart (declarations types).toList = (declarations types).toList := by
    cases types with
    | nil => rfl
    | cons g types =>
      obtain ⟨rest, hrest⟩ := exists_declaration g
      rw [toList_declarations_cons, hrest]
      rfl
  exact readFrom_declarations h (Nat.lt_succ_of_le (length_le_length_declarations types)) hstart

example : readAll "export interface Visit \x7b id: number \x7d\n\nexport type Visits = Visit[];\n\n"
    = some [⟨true, "Visit", "\x7b id: number \x7d", "export interface Visit \x7b id: number \x7d"⟩,
      ⟨false, "Visits", "Visit[]", "export type Visits = Visit[];"⟩] := by decide +kernel

end Declaration

end TypedClients
