import Mathlib.Data.List.Basic
import TypedClients.Client.PathExpression
import TypedClients.Proofs.Naming.Case

/-!
# Placeholders and their arguments

The placeholders of a path are found twice: in the path itself, where a member gets its
arguments from, and in a copy whose backticks are escaped, where the expression for the path
puts them in. A backslash ahead of a backtick splits no placeholder and opens none, and it is
lost like the backtick when a placeholder becomes an argument, so both searches find the same
arguments.

* `templatePieces_eq`: the pieces of the copy are those of the path, each escaped.
* `substituted_eq`: the arguments that the expression substitutes are those of the placeholders.
* `flatMap_templatePiece`: a template is the path with its backticks escaped and its
  placeholders replaced.
* `braced_pieces`: a brace among the characters of a path encloses nothing or is never closed.
-/

namespace TypedClients.Client

open Naming (Piece pieces piecesFrom placeholders isAlphanumeric isIdentifier isIdentifierPart)

/-! ## The pieces of the escaped copy -/

/-- A piece as it is found once backticks are escaped. -/
def escapedPiece : Piece → List Piece
  | .char c => (templateChar c).map .char
  | .placeholder name => [.placeholder (name.flatMap templateChar)]

theorem templateChar_ne_nil (c : Char) : templateChar c ≠ [] := by
  unfold templateChar
  split
  · exact List.cons_ne_nil _ _
  · exact List.cons_ne_nil _ _

/-- Escaping brings in no character but a backslash. -/
theorem mem_templateChar {c d : Char} (h : d ∈ templateChar c) : d = '\\' ∨ d = c := by
  unfold templateChar at h
  split at h
  next hc =>
    rw [hc]
    rcases List.mem_cons.1 h with h | h
    · exact Or.inl h
    · exact Or.inr (List.mem_singleton.1 h)
  next => exact Or.inr (List.mem_singleton.1 h)

theorem flatMap_templateChar_eq_nil {s : List Char} : s.flatMap templateChar = [] ↔ s = [] := by
  rw [List.flatMap_eq_nil_iff]
  constructor
  · intro h
    cases s with
    | nil => rfl
    | cons c rest => exact absurd (h c List.mem_cons_self) (templateChar_ne_nil c)
  · rintro rfl c hc
    cases hc

theorem piecesFrom_none_append {front : List Char} (h : '\x7b' ∉ front) (s : List Char) :
    piecesFrom none (front ++ s) = front.map .char ++ piecesFrom none s := by
  induction front with
  | nil => rfl
  | cons c front ih =>
    have hc : c ≠ '\x7b' := fun hc => h (hc ▸ List.mem_cons_self)
    rw [List.cons_append, piecesFrom, if_neg hc, ih fun hmem => h (List.mem_cons_of_mem _ hmem),
      List.map_cons, List.cons_append]

theorem piecesFrom_some_append {front : List Char} (h : '\x7d' ∉ front) (name s : List Char) :
    piecesFrom (some name) (front ++ s) = piecesFrom (some (name ++ front)) s := by
  induction front generalizing name with
  | nil => rw [List.nil_append, List.append_nil]
  | cons c front ih =>
    have hc : c ≠ '\x7d' := fun hc => h (hc ▸ List.mem_cons_self)
    rw [List.cons_append, piecesFrom, if_neg hc, ih (fun hmem => h (List.mem_cons_of_mem _ hmem)),
      List.append_assoc, List.singleton_append]

theorem piecesFrom_flatMap (opened : Option (List Char)) (s : List Char) :
    piecesFrom (opened.map (List.flatMap templateChar)) (s.flatMap templateChar) =
      (piecesFrom opened s).flatMap escapedPiece := by
  induction s generalizing opened with
  | nil =>
    cases opened with
    | none => rfl
    | some name =>
      rw [List.flatMap_nil, Option.map_some, piecesFrom, piecesFrom, List.flatMap_map,
        List.map_cons, List.map_flatMap]
      rfl
  | cons c rest ih =>
    rw [List.flatMap_cons]
    cases opened with
    | none =>
      by_cases hc : c = '\x7b'
      · subst hc
        exact ih (some [])
      · have hfront : '\x7b' ∉ templateChar c := by
          intro hmem
          rcases mem_templateChar hmem with hmem | hmem
          · exact absurd hmem (by decide)
          · exact hc hmem.symm
        rw [Option.map_none, piecesFrom_none_append hfront, piecesFrom, if_neg hc,
          List.flatMap_cons, escapedPiece]
        exact congrArg _ (ih none)
    | some name =>
      rw [Option.map_some]
      by_cases hc : c = '\x7d'
      · subst hc
        have hchar : templateChar '\x7d' = ['\x7d'] := rfl
        rw [hchar, List.singleton_append, piecesFrom, if_pos rfl, piecesFrom, if_pos rfl]
        by_cases hname : name = []
        · rw [if_pos hname, if_pos (flatMap_templateChar_eq_nil.2 hname)]
          exact congrArg (.char '\x7b' :: .char '\x7d' :: ·) (ih none)
        · rw [if_neg hname, if_neg (mt flatMap_templateChar_eq_nil.1 hname)]
          exact congrArg (.placeholder (name.flatMap templateChar) :: ·) (ih none)
      · have hfront : '\x7d' ∉ templateChar c := by
          intro hmem
          rcases mem_templateChar hmem with hmem | hmem
          · exact absurd hmem (by decide)
          · exact hc hmem.symm
        have hname := ih (some (name ++ [c]))
        rw [Option.map_some, List.flatMap_append, List.flatMap_singleton] at hname
        rw [piecesFrom_some_append hfront, hname, piecesFrom, if_neg hc]

/-- The pieces of the escaped copy are those of the path, each escaped. -/
theorem templatePieces_eq (path : String) :
    templatePieces path = (pieces path.toList).flatMap escapedPiece :=
  piecesFrom_flatMap none path.toList

/-! ## The arguments of placeholders -/

/-- What is joined to the letters and digits of a text does not depend on the escaping. -/
theorem filter_joinWords (raising : Bool) (s : List Char) :
    (Naming.joinWords raising (s.flatMap templateChar)).filter isAlphanumeric =
      (Naming.joinWords raising s).filter isAlphanumeric := by
  induction s generalizing raising with
  | nil => rfl
  | cons c rest ih =>
    rw [List.flatMap_cons]
    by_cases hc : c = '\x60'
    · subst hc
      cases raising with
      | false => exact ih false
      | true => exact ih false
    · rw [templateChar, if_neg hc, List.singleton_append, Naming.joinWords, Naming.joinWords]
      split
      next => exact ih true
      next => rw [List.filter_append, List.filter_append, ih false]

/-- A placeholder has the same argument in the escaped copy as in the path. -/
theorem pathArgument_flatMap (name : List Char) :
    pathArgument (String.ofList (name.flatMap templateChar)) =
      pathArgument (String.ofList name) := by
  have hpascal : Naming.pascalChars (name.flatMap templateChar) = Naming.pascalChars name := by
    rw [Naming.pascalChars_eq, Naming.pascalChars_eq, filter_joinWords]
  have hname : Naming.argumentName (String.ofList (name.flatMap templateChar)) =
      Naming.argumentName (String.ofList name) := by
    rw [Naming.argumentName, Naming.argumentName, Naming.camel, Naming.camel, String.toList_ofList,
      String.toList_ofList, hpascal]
  rw [pathArgument, pathArgument, hname]

/-- The argument that stands for a piece in a template. -/
def argument? : Piece → Option String
  | .char _ => none
  | .placeholder name => some (pathArgument (String.ofList name))

/-- The arguments that the expression for a path substitutes, in order. -/
def substituted (path : String) : List String :=
  if placeholders path = [] then [] else (templatePieces path).filterMap argument?

/-- The arguments that the expression for a path substitutes are those of its placeholders. -/
theorem substituted_eq (path : String) :
    substituted path = (placeholders path).map pathArgument := by
  have hpieces : (templatePieces path).filterMap argument? =
      (placeholders path).map pathArgument := by
    rw [templatePieces_eq, placeholders, List.map_filterMap]
    induction pieces path.toList with
    | nil => rfl
    | cons p ps ih =>
      cases p with
      | char c =>
        have hnone : ((templateChar c).map Piece.char).filterMap argument? = [] := by
          rw [List.filterMap_map, List.filterMap_eq_nil_iff]
          exact fun _ _ => rfl
        rw [List.flatMap_cons, List.filterMap_append, escapedPiece, hnone, List.nil_append, ih]
        rfl
      | placeholder name =>
        have hsome : (escapedPiece (.placeholder name)).filterMap argument? =
            [pathArgument (String.ofList name)] :=
          congrArg (List.cons · []) (pathArgument_flatMap name)
        rw [List.flatMap_cons, List.filterMap_append, hsome, ih]
        rfl
  unfold substituted
  split
  next h => rw [h, List.map_nil]
  next => exact hpieces

/-! ## The text of a template -/

/-- A piece of a path as it stands in a template. -/
def templateText : Piece → List Char
  | .char c => templateChar c
  | .placeholder name =>
    '$' :: '\x7b' :: (pathArgument (String.ofList name)).toList ++ ['\x7d']

/-- A template is the path with its backticks escaped and its placeholders replaced. -/
theorem flatMap_templatePiece (path : String) :
    (templatePieces path).flatMap templatePiece = (pieces path.toList).flatMap templateText := by
  rw [templatePieces_eq, List.flatMap_assoc]
  refine List.flatMap_congr fun p _ => ?_
  cases p with
  | char c =>
    rw [escapedPiece, List.flatMap_map]
    exact List.flatMap_singleton' _
  | placeholder name =>
    rw [escapedPiece, List.flatMap_singleton, templatePiece, pathArgument_flatMap, templateText]

/-! ## Braces -/

/-- A brace among the characters of a path is followed by its closing brace, or by no closing
brace at all. -/
def Braced (ps : List Piece) : Prop :=
  ∀ before after, ps = before ++ .char '\x7b' :: after →
    after.head? = some (.char '\x7d') ∨ ∀ p, p ∈ after → ∃ c, p = .char c ∧ c ≠ '\x7d'

theorem Braced.cons {p : Piece} {ps : List Piece} (h : Braced ps) (hp : p ≠ .char '\x7b') :
    Braced (p :: ps) := by
  intro before after heq
  cases before with
  | nil => exact absurd (List.cons.inj heq).1 hp
  | cons q before => exact h before after (List.cons.inj heq).2

theorem braced_piecesFrom {opened : Option (List Char)}
    (hopened : ∀ name, opened = some name → '\x7d' ∉ name) (s : List Char) :
    Braced (piecesFrom opened s) := by
  induction s generalizing opened with
  | nil =>
    cases opened with
    | none =>
      intro before after heq
      exact absurd heq (List.append_ne_nil_of_right_ne_nil _ (List.cons_ne_nil _ _)).symm
    | some name =>
      intro before after heq
      -- nothing behind the brace closes it
      refine Or.inr fun p hp => ?_
      have hmem : p ∈ name.map Piece.char := by
        cases before with
        | nil => exact (List.cons.inj heq).2 ▸ hp
        | cons q before =>
          have htail : name.map Piece.char = before ++ .char '\x7b' :: after :=
            (List.cons.inj heq).2
          rw [htail]
          exact List.mem_append_right _ (List.mem_cons_of_mem _ hp)
      obtain ⟨c, hc, rfl⟩ := List.mem_map.1 hmem
      exact ⟨c, rfl, fun hbrace => hopened name rfl (hbrace ▸ hc)⟩
  | cons c rest ih =>
    have hclosed : Braced (piecesFrom none rest) := ih fun _ h => by cases h
    cases opened with
    | none =>
      rw [piecesFrom]
      split
      next =>
        refine ih fun name h => ?_
        cases h
        exact List.not_mem_nil
      next hc => exact hclosed.cons fun h => hc (Piece.char.inj h)
    | some name =>
      rw [piecesFrom]
      split
      next =>
        split
        next =>
          intro before after heq
          cases before with
          | nil => exact Or.inl ((List.cons.inj heq).2 ▸ rfl)
          | cons q before =>
            exact (hclosed.cons (p := .char '\x7d') (by decide)) before after (List.cons.inj heq).2
        next => exact hclosed.cons fun h => by cases h
      next hc =>
        refine ih fun name' h => ?_
        cases h
        rw [List.mem_append, List.mem_singleton, not_or]
        exact ⟨hopened name rfl, Ne.symm hc⟩

theorem braced_pieces (path : List Char) : Braced (pieces path) :=
  braced_piecesFrom (fun _ h => by cases h) path

/-! ## Names of arguments -/

theorem isIdentifier_pathArgument (placeholder : String) :
    isIdentifier (pathArgument placeholder).toList = true := by
  have hname : isIdentifier (Naming.argumentName placeholder).toList = true :=
    Naming.isIdentifier_identifier _
  unfold pathArgument
  simp only
  split
  · rw [String.toList_append]
    exact Naming.isIdentifier_append hname (List.all_eq_true.1 (by decide))
  · exact hname

theorem dollar_not_mem_pathArgument (placeholder : String) :
    '$' ∉ (pathArgument placeholder).toList := by
  have hname : '$' ∉ (Naming.argumentName placeholder).toList := by
    rw [Naming.argumentName, Naming.identifier, String.toList_ofList]
    intro h
    rcases Naming.mem_identifierChars h with h | h
    · exact absurd h (by decide)
    · exact absurd (Naming.isAlphanumeric_of_mem_camel h) (by decide)
  unfold pathArgument
  simp only
  split
  · rw [String.toList_append, List.mem_append, not_or]
    exact ⟨hname, by decide⟩
  · exact hname

end TypedClients.Client
