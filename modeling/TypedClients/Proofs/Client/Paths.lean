import TypedClients.Proofs.Client.Placeholders
import TypedClients.Proofs.Script.Quoted
import TypedClients.Proofs.Script.Template

/-!
# When the expression for a path gives the path

The expression for a path is read by the rules of the target language and compared with the
path in which each placeholder has given way to the value of its argument. In single quotes
every character but a line break comes through. A template escapes its backticks and nothing
else, so a backslash of the path begins an escape of the program, a carriage return becomes a
line feed, `$` with a brace behind it opens a placeholder that the path does not have, and a
placeholder whose argument is called like a reserved word stands for no variable. In every
other case the template gives the path.

* `read?_template`: so is a template without the four pitfalls.
* `evaluate_pathExpression`: the expression of a path gives the path, whatever the values of
  the arguments, exactly if the path is `Faithful`.
* `names_of_pathExpression`: an expression reads no variables but the arguments of placeholders.
-/

namespace TypedClients.Client

open Naming (Piece pieces placeholders isIdentifier isIdentifierPart)
open Script

/-! ## What is meant -/

/-- The code units that a piece of a path stands for, given the values of the arguments. -/
def pieceValue (env : String → List UInt16) : Piece → List UInt16
  | .char c => units c
  | .placeholder name => env (pathArgument (String.ofList name))

/-- A path in which each placeholder has given way to the value of its argument. -/
def filledIn (env : String → List UInt16) (path : String) : List UInt16 :=
  (pieces path.toList).flatMap (pieceValue env)

/-- The pieces of a path that a template gives back. -/
structure Templated (ps : List Piece) : Prop where
  backslash : .char '\\' ∉ ps
  carriage : .char '\r' ∉ ps
  dollar : ∀ before after, ps ≠ before ++ .char '$' :: .char '\x7b' :: after
  names : ∀ name, .placeholder name ∈ ps → pathArgument (String.ofList name) ∉ reservedWords

/-- The paths whose expression gives them back. -/
def Faithful (path : String) : Prop :=
  if placeholders path = [] then '\n' ∉ path.toList ∧ '\r' ∉ path.toList
  else Templated (pieces path.toList)

/-! ## Templates -/

/-- The parts that a piece of a path stands for. -/
def pieceParts : Piece → List Part
  | .char c => (units c).map .unit
  | .placeholder name => [.name (pathArgument (String.ofList name))]

theorem evaluate_pieceParts (env : String → List UInt16) (ps : List Piece) :
    evaluate env (ps.flatMap pieceParts) = ps.flatMap (pieceValue env) := by
  rw [evaluate, List.flatMap_assoc]
  refine List.flatMap_congr fun p _ => ?_
  cases p with
  | char c => exact evaluate_units env (units c)
  | placeholder name => exact List.append_nil _

/-- The text of a template from behind its opening backtick on. -/
def inside (ps : List Piece) : List Char := ps.flatMap templateText ++ ['\x60']

theorem inside_cons (p : Piece) (ps : List Piece) :
    inside (p :: ps) = templateText p ++ inside ps := by
  rw [inside, List.flatMap_cons, List.append_assoc, inside]

theorem inside_append (ps qs : List Piece) :
    inside (ps ++ qs) = ps.flatMap templateText ++ inside qs := by
  rw [inside, List.flatMap_append, List.append_assoc, inside]

/-- Only a brace of the path is written as one at the start of a piece. -/
theorem eq_cons_of_head?_inside {ps : List Piece} (h : (inside ps).head? = some '\x7b') :
    ∃ after, ps = .char '\x7b' :: after := by
  cases ps with
  | nil => exact absurd h (by decide)
  | cons p after =>
    rw [inside_cons] at h
    cases p with
    | char c =>
      rw [templateText, templateChar] at h
      split at h
      next => exact absurd (Option.some.inj h) (by decide)
      next => exact ⟨after, congrArg (fun c => .char c :: after) (Option.some.inj h)⟩
    | placeholder name => exact absurd (Option.some.inj h) (by decide)

theorem Templated.tail {p : Piece} {ps : List Piece} (h : Templated (p :: ps)) : Templated ps where
  backslash hmem := h.backslash (List.mem_cons_of_mem _ hmem)
  carriage hmem := h.carriage (List.mem_cons_of_mem _ hmem)
  dollar before after heq := h.dollar (p :: before) after (congrArg (p :: ·) heq)
  names name hmem := h.names name (List.mem_cons_of_mem _ hmem)

/-- The next part of a template is that of the next piece. -/
theorem next?_templateText {p : Piece} {ps : List Piece} (h : Templated (p :: ps)) :
    template.next? (templateText p ++ inside ps) = some (pieceParts p, inside ps) := by
  show templateNext? _ = _
  cases p with
  | char c =>
    have hback : c ≠ '\\' := fun hc => h.backslash (hc ▸ List.mem_cons_self)
    have hreturn : c ≠ '\r' := fun hc => h.carriage (hc ▸ List.mem_cons_self)
    rw [templateText, templateChar]
    split
    next hc =>
      subst hc
      rfl
    next =>
      have hdollar : ¬(c = '$' ∧ (inside ps).head? = some '\x7b') := by
        rintro ⟨rfl, hhead⟩
        obtain ⟨after, rfl⟩ := eq_cons_of_head?_inside hhead
        exact h.dollar [] after rfl
      rw [List.singleton_append, templateNext?, if_neg hback, if_neg hdollar, if_neg hreturn]
      rfl
  | placeholder name =>
    have hname := name?_append (isIdentifier_pathArgument (String.ofList name)) (inside ps)
    rw [if_neg (h.names name List.mem_cons_self)] at hname
    rw [templateText, List.append_assoc, List.cons_append, List.cons_append, templateNext?,
      if_neg (by decide), if_pos ⟨rfl, rfl⟩, List.tail_cons, List.singleton_append, hname]
    rfl

theorem head?_templateText (p : Piece) (rest : List Char) :
    (templateText p ++ rest).head? ≠ some template.quote := by
  cases p with
  | char c =>
    rw [templateText, templateChar]
    split
    next =>
      intro h
      exact absurd (Option.some.inj h) (by decide)
    next hc => exact fun h => hc (Option.some.inj h)
  | placeholder name =>
    intro h
    exact absurd (Option.some.inj h) (by decide)

/-- A template without the four pitfalls is read back. -/
theorem read?_template {ps : List Piece} (h : Templated ps) :
    template.read? (inside ps) = some (ps.flatMap pieceParts, []) := by
  induction ps with
  | nil => exact template.read?_quote []
  | cons p ps ih =>
    rw [inside_cons, Kind.read?_of_next? (head?_templateText p _) (next?_templateText h), ih h.tail,
      Option.map_some, List.flatMap_cons]

/-! ## Pitfalls -/

/-- The text of a template is longer than what it stands for by its backticks, if the
variables have the values that count. -/
theorem length_units_inside (ps : List Piece) :
    ((inside ps).flatMap units).length =
      (ps.flatMap (pieceValue written)).length + (inside ps).count '\x60' := by
  induction ps with
  | nil => rfl
  | cons p ps ih =>
    have hpiece : ((templateText p).flatMap units).length =
        (pieceValue written p).length + (templateText p).count '\x60' := by
      cases p with
      | char c =>
        rw [templateText, templateChar]
        split
        next hc =>
          subst hc
          rfl
        next hc =>
          rw [List.flatMap_singleton, List.count_eq_zero.2 fun h =>
            hc (List.mem_singleton.1 h).symm, pieceValue, Nat.add_zero]
      | placeholder name =>
        have hcount : (templateText (.placeholder name)).count '\x60' = 0 := by
          rw [List.count_eq_zero]
          have hname := not_mem_of_isIdentifier (c := '\x60')
            (isIdentifier_pathArgument (String.ofList name)) (by decide)
          simpa [templateText] using hname
        rw [hcount]
        rfl
    rw [inside_cons, List.flatMap_append, List.length_append, List.count_append, List.flatMap_cons,
      List.length_append, ih, hpiece]
    omega

/-- A backslash of the path is stray in the template. -/
theorem stray_inside {ps : List Piece} (h : .char '\\' ∈ ps) : stray (inside ps) = true := by
  obtain ⟨before, after, rfl⟩ := List.append_of_mem h
  rw [inside_append, inside_cons]
  refine stray_append_of_stray _ (stray_backslash ?_)
  cases after with
  | nil => exact Or.inr rfl
  | cons p after =>
    rw [inside_cons]
    exact Or.inl (head?_templateText p _)

/-- No name begins behind a brace of the path. -/
theorem not_name_of_braced {after : List Piece} (h : Braced (.char '\x7b' :: after))
    {n q : List Char} (hn : isIdentifier n = true) : inside after ≠ n ++ '\x7d' :: q := by
  intro heq
  rcases h [] after rfl with hhead | hopen
  · -- the closing brace comes at once, and a name is not empty
    cases after with
    | nil => cases hhead
    | cons p after =>
      obtain rfl := Option.some.inj hhead
      cases n with
      | nil => cases hn
      | cons c n =>
        have hc : '\x7d' = c := (List.cons.inj heq).1
        subst hc
        cases hn
  · -- there is no closing brace
    have hmem : '\x7d' ∈ inside after := heq ▸ List.mem_append_right _ List.mem_cons_self
    rcases List.mem_append.1 hmem with hmem | hmem
    · obtain ⟨p, hp, hchar⟩ := List.mem_flatMap.1 hmem
      obtain ⟨c, rfl, hc⟩ := hopen p hp
      rcases mem_templateChar hchar with h | h
      · exact absurd h (by decide)
      · exact hc h.symm
    · exact absurd hmem (by decide)

/-- A template that gives the path has none of the pitfalls. -/
theorem templated_of_read? {ps : List Piece} (hbraced : Braced ps) {parts : List Part}
    (hread : template.read? (inside ps) = some (parts, []))
    (hvalue : evaluate written parts = ps.flatMap (pieceValue written)) : Templated ps := by
  have hstray : stray (inside ps) = false := by
    have hlength := length_evaluate_add_le hread
    rw [length_units_inside, hvalue] at hlength
    cases hs : stray (inside ps) with
    | false => rfl
    | true =>
      rw [hs, Bool.toNat_true] at hlength
      omega
  refine ⟨?_, ?_, ?_, ?_⟩
  · intro hmem
    rw [stray_inside hmem] at hstray
    cases hstray
  · intro hmem
    have hreturn := return_not_mem_evaluate hread hstray
    rw [hvalue] at hreturn
    have hunit : 13 ∈ units '\r' := by decide
    exact hreturn (List.mem_flatMap.2 ⟨_, hmem, hunit⟩)
  · rintro before after rfl
    rw [inside_append, inside_cons, inside_cons] at hread hstray
    obtain ⟨⟨n, q⟩, hname⟩ := Option.isSome_iff_exists.1 (isSome_name?_of_template hread hstray rfl)
    obtain ⟨htext, hn, -⟩ := name?_eq_some hname
    have htail : Braced (.char '\x7b' :: after) := by
      intro before' after' heq
      exact hbraced (before ++ .char '$' :: before') after' (by rw [heq]; simp)
    exact not_name_of_braced htail hn htext
  · intro name hmem
    obtain ⟨before, after, rfl⟩ := List.append_of_mem hmem
    have htext : inside (before ++ .placeholder name :: after) =
        before.flatMap templateText ++ '$' :: '\x7b' ::
          ((pathArgument (String.ofList name)).toList ++ '\x7d' :: inside after) := by
      rw [inside_append, inside_cons, templateText, List.append_assoc]
      rfl
    have hname := isSome_name?_of_template hread hstray htext
    rw [name?_append (isIdentifier_pathArgument _)] at hname
    intro hreserved
    rw [if_pos hreserved] at hname
    cases hname

/-! ## Paths as expressions -/

/-- A path without placeholders is a row of characters. -/
theorem pieces_eq_of_placeholders {path : String} (h : placeholders path = []) :
    pieces path.toList = path.toList.map .char := by
  have hchars : ∀ ps : List Piece, (∀ p, p ∈ ps → ∃ c, p = .char c) →
      ps = (ps.flatMap Piece.text).map .char := by
    intro ps hps
    induction ps with
    | nil => rfl
    | cons p ps ih =>
      obtain ⟨c, rfl⟩ := hps p List.mem_cons_self
      exact congrArg (.char c :: ·) (ih fun q hq => hps q (List.mem_cons_of_mem _ hq))
  have hpieces := hchars (pieces path.toList) fun p hp => by
    cases p with
    | char c => exact ⟨c, rfl⟩
    | placeholder name => cases List.filterMap_eq_nil_iff.1 h _ hp
  rwa [Naming.text_pieces] at hpieces

/-- The expression of a path with placeholders is a template of its pieces. -/
theorem pathExpression_of_placeholders {path : String} (h : placeholders path ≠ []) :
    (pathExpression path).toList = '\x60' :: inside (pieces path.toList) := by
  rw [pathExpression, if_neg h, String.toList_ofList, flatMap_templatePiece, inside,
    List.cons_append]

theorem opening?_template (s : List Char) : opening? ('\x60' :: s) = template.read? s := by
  rw [opening?, List.head?_cons, if_neg (by decide), if_pos rfl, List.tail_cons]

/-- The expression for a path gives the path, whatever the values of its arguments, exactly if
the path is faithful. -/
theorem evaluate_pathExpression (path : String) :
    (∀ env, (literal? (pathExpression path).toList).map (evaluate env) = some (filledIn env path)) ↔
      Faithful path := by
  unfold Faithful
  split
  next h =>
    have hvalue : ∀ env, filledIn env path = path.toList.flatMap units := by
      intro env
      rw [filledIn, pieces_eq_of_placeholders h, List.flatMap_map]
      rfl
    rw [pathExpression, if_pos h]
    constructor
    · intro hall
      obtain ⟨parts, hparts, -⟩ := Option.map_eq_some_iff.1 (hall written)
      rw [literal?_eq_some, opening?_quoted] at hparts
      by_contra hbreak
      rw [read?_quoted_eq_none] at hparts
      · cases hparts
      · rwa [not_and_or, not_not, not_not] at hbreak
    · intro hplain env
      have hparts : literal? (Naming.singleQuoted path).toList =
          some ((path.toList.flatMap units).map .unit) := by
        rw [literal?_eq_some, opening?_quoted, read?_quoted hplain]
      rw [hparts, Option.map_some, evaluate_units, hvalue]
  next h =>
    rw [pathExpression_of_placeholders h]
    constructor
    · intro hall
      obtain ⟨parts, hparts, hvalue⟩ := Option.map_eq_some_iff.1 (hall written)
      rw [literal?_eq_some, opening?_template] at hparts
      exact templated_of_read? (braced_pieces _) hparts hvalue
    · intro htemplated env
      have hparts : literal? ('\x60' :: inside (pieces path.toList)) =
          some ((pieces path.toList).flatMap pieceParts) := by
        rw [literal?_eq_some, opening?_template, read?_template htemplated]
      rw [hparts, Option.map_some, evaluate_pieceParts, filledIn]

/-- In a path with a placeholder, a backslash and the character behind it are read as an
escape. -/
theorem evaluate_pathExpression_backslash :
    (literal? (pathExpression "/files/{drive}\\notes").toList).map (evaluate fun _ => units 'c') =
        some ("/files/c\notes".toList.flatMap units) ∧
      filledIn (fun _ => units 'c') "/files/{drive}\\notes" =
        "/files/c\\notes".toList.flatMap units ∧
      "/files/c\notes".toList.flatMap units ≠ "/files/c\\notes".toList.flatMap units := by
  decide +kernel

/-! ## Variables -/

theorem Braced.tail {p : Piece} {ps : List Piece} (h : Braced (p :: ps)) : Braced ps :=
  fun before after heq => h (p :: before) after (congrArg (p :: ·) heq)

/-- Two texts before their first closing brace are equal. -/
theorem eq_of_append_brace {s t p q : List Char} (hs : '\x7d' ∉ s) (ht : '\x7d' ∉ t)
    (h : s ++ '\x7d' :: p = t ++ '\x7d' :: q) : s = t := by
  have key : ∀ s p : List Char, '\x7d' ∉ s → (s ++ '\x7d' :: p).takeWhile (· ≠ '\x7d') = s := by
    intro s p hs
    rw [List.takeWhile_append_of_pos, List.takeWhile_cons_of_neg, List.append_nil]
    · decide
    · exact fun c hc => decide_eq_true fun h => hs (h ▸ hc)
  rw [← key s p hs, h, key t q ht]

/-- A name in braces inside a template is the argument of a placeholder. -/
theorem mem_of_braces {ps : List Piece} (hbraced : Braced ps) {n : String}
    (hn : isIdentifier n.toList = true) {p q : List Char}
    (h : inside ps = p ++ '$' :: '\x7b' :: (n.toList ++ '\x7d' :: q)) :
    ∃ name, .placeholder name ∈ ps ∧ pathArgument (String.ofList name) = n := by
  induction ps generalizing p with
  | nil =>
    have hmem : '$' ∈ inside [] := h ▸ List.mem_append_right _ List.mem_cons_self
    exact absurd hmem (by decide)
  | cons piece ps ih =>
    rw [inside_cons] at h
    rcases append_eq_append_cons h with ⟨p', hp'⟩ | ⟨back, hpiece, hback⟩
    · obtain ⟨name, hname, harg⟩ := ih hbraced.tail hp'
      exact ⟨name, List.mem_cons_of_mem _ hname, harg⟩
    cases piece with
    | char c =>
      have hmem : '$' ∈ templateChar c := by
        show '$' ∈ templateText (.char c)
        rw [hpiece]
        exact List.mem_append_right _ List.mem_cons_self
      rcases mem_templateChar hmem with hc | rfl
      · exact absurd hc (by decide)
      -- the brace behind the dollar is one of the path
      have hsplit : ['$'] = p ++ '$' :: back := hpiece
      cases p with
      | nil =>
        obtain ⟨-, rfl⟩ := List.cons.inj hsplit
        rw [List.nil_append] at hback
        have hbrace : (inside ps).head? = some '\x7b' := by rw [← hback, List.head?_cons]
        obtain ⟨after, rfl⟩ := eq_cons_of_head?_inside hbrace
        rw [inside_cons] at hback
        exact absurd (List.cons.inj hback).2.symm (not_name_of_braced hbraced.tail hn)
      | cons d p =>
        have hnil := (List.cons.inj hsplit).2
        exact absurd hnil.symm (List.append_ne_nil_of_right_ne_nil _ (List.cons_ne_nil _ _))
    | placeholder name =>
      have harg := isIdentifier_pathArgument (String.ofList name)
      refine ⟨name, List.mem_cons_self, ?_⟩
      rw [templateText, List.cons_append, List.cons_append] at hpiece
      cases p with
      | nil =>
        obtain ⟨-, rfl⟩ := List.cons.inj hpiece
        rw [List.cons_append, List.append_assoc, List.singleton_append] at hback
        exact String.toList_inj.1 (eq_of_append_brace (not_mem_of_isIdentifier harg (by decide))
          (not_mem_of_isIdentifier hn (by decide)) (List.cons.inj hback).2.symm)
      | cons d p =>
        -- there is no dollar in the name of an argument
        have hmem : '$' ∈ '\x7b' :: ((pathArgument (String.ofList name)).toList ++ ['\x7d']) := by
          rw [(List.cons.inj hpiece).2]
          exact List.mem_append_right _ List.mem_cons_self
        have hdollar := dollar_not_mem_pathArgument (String.ofList name)
        simp [hdollar] at hmem

/-- The literal that an expression for a path begins with reads no variables but the arguments
that the expression substitutes. -/
theorem names_of_pathExpression {path : String} {parts : List Part} {rest : List Char}
    (h : opening? (pathExpression path).toList = some (parts, rest)) {n : String}
    (hn : .name n ∈ parts) : n ∈ substituted path := by
  by_cases hplaceholders : placeholders path = []
  · rw [pathExpression, if_pos hplaceholders] at h
    rw [(opening?_quoted_eq_some h).1] at hn
    obtain ⟨u, -, hu⟩ := List.mem_map.1 hn
    cases hu
  · rw [pathExpression_of_placeholders hplaceholders, opening?_template] at h
    obtain ⟨p, q, htext, hidentifier⟩ := exists_braces_of_mem h hn
    obtain ⟨name, hname, rfl⟩ := mem_of_braces (braced_pieces _) hidentifier htext
    rw [substituted_eq]
    exact List.mem_map_of_mem (List.mem_filterMap.2 ⟨_, hname, rfl⟩)

/-! ## The end of the expression -/

theorem closed_inside {ps : List Piece} (h : .char '\\' ∉ ps) : Closed (inside ps) := by
  induction ps with
  | nil => exact .closing
  | cons p ps ih =>
    have hrest := ih fun hmem => h (List.mem_cons_of_mem _ hmem)
    rw [inside_cons]
    cases p with
    | char c =>
      rw [templateText, templateChar]
      split
      next => exact .backtick hrest
      next hc => exact .char (fun hback => h (hback ▸ List.mem_cons_self)) hc hrest
    | placeholder name =>
      have hname := isIdentifier_pathArgument (String.ofList name)
      have hback := not_mem_of_isIdentifier hname (c := '\\') (by decide)
      have htick := not_mem_of_isIdentifier hname (c := '\x60') (by decide)
      exact hrest.append (by simpa [templateText] using hback) (by simpa [templateText] using htick)

theorem mem_of_char_mem_pieces {path : List Char} {c : Char} (h : .char c ∈ pieces path) :
    c ∈ path := by
  rw [← Naming.text_pieces path]
  exact List.mem_flatMap.2 ⟨_, h, List.mem_singleton.2 rfl⟩

/-- Only a path with a backslash can end its expression early. -/
theorem rest_eq_nil_of_opening? {path : String} (hpath : '\\' ∉ path.toList) {parts : List Part}
    {rest : List Char} (h : opening? (pathExpression path).toList = some (parts, rest)) :
    rest = [] := by
  by_cases hplaceholders : placeholders path = []
  · rw [pathExpression, if_pos hplaceholders] at h
    exact (opening?_quoted_eq_some h).2
  · rw [pathExpression_of_placeholders hplaceholders, opening?_template] at h
    exact rest_eq_nil_of_closed (closed_inside (mt mem_of_char_mem_pieces hpath)) h

end TypedClients.Client
