import TypedClients.Proofs.TypeText.Expansion
import TypedClients.Types.Table

/-!
# Interfaces are object literals

A declaration is an interface if its body looks like one object literal: a scan finds that the
brace it begins with is closed by its last character. For the text of a schema this is the
case exactly if the text, read as a type, is an object. A union, an intersection or an array
that begins with an object goes on behind the brace that closes it, although it may end with
another brace.

`Delimited` says of a text whether its first brace encloses all of it; it is kept by every
operation that texts of schemas are made with (`Schema.compositional_shaped`).

* `isObjectLiteral_of_delimited`: the scan decides whether the first brace encloses the whole
  text.
* `Schema.declaration_render`: interfaces are declared for objects, aliases for all other types.
-/

namespace TypedClients

/-! ## Objects -/

namespace TypeTree

/-- Whether a type is one object: an object type, or a JSON object, which is the only atom
that begins with a brace. -/
def isObject : TypeTree → Bool
  | atom text => text.toList.head? = some '\x7b'
  | object _ => true
  | _ => false

variable {a b : TypeTree}

theorem isObject_literal (text : String) :
    (literal text).isObject = decide (text.toList.head? = some '\x7b') := by
  unfold literal
  split
  next h => rw [h]; rfl
  next => rfl

theorem isObject_of_isNull (h : a.isNull = true) : a.isObject = false := by
  cases a with
  | atom text =>
    obtain rfl : text = "null" := by simpa [isNull] using h
    decide
  | _ => cases h

/-- Two alternatives or more are no object, even if they are all null. -/
theorem isObject_unionOf_nullOnce (a b : TypeTree) (l : List TypeTree) :
    (unionOf (nullOnce (a :: b :: l))).isObject = false := by
  rw [nullOnce_cons]
  split
  next hnull =>
    cases (b :: l).filter (!·.isNull) with
    | nil => exact isObject_of_isNull hnull
    | cons c rest => rfl
  next =>
    obtain ⟨c, rest, hrest⟩ := List.exists_cons_of_ne_nil (nullOnce_ne_nil (List.cons_ne_nil b l))
    rw [hrest]
    rfl

/-- Flattening a type keeps whether it is an object. -/
theorem isObject_normal (a : TypeTree) : a.normal.isObject = a.isObject := by
  cases a with
  | atom text => rfl
  | array item => rfl
  | record value => rfl
  | object members => rfl
  | union a b =>
    obtain ⟨c, l, hl⟩ := List.exists_cons_of_ne_nil (alternatives_ne_nil a.normal)
    obtain ⟨d, l', hl'⟩ := List.exists_cons_of_ne_nil (alternatives_ne_nil b.normal)
    rw [normal_union, hl, hl', List.cons_append]
    cases l with
    | nil => exact isObject_unionOf_nullOnce c d l'
    | cons e l => exact isObject_unionOf_nullOnce c e _
  | inter a b =>
    obtain ⟨c, l, hl⟩ := List.exists_cons_of_ne_nil (operands_ne_nil a.normal)
    obtain ⟨d, l', hl'⟩ := List.exists_cons_of_ne_nil (operands_ne_nil b.normal)
    rw [normal_inter, hl, hl', List.cons_append]
    cases l with
    | nil => rfl
    | cons e l => rfl

theorem Same.isObject (h : Same a b) : a.isObject = b.isObject := by
  rw [← isObject_normal a, h, isObject_normal]

/-- An object does not admit null. -/
theorem any_isNull_of_isObject (h : a.isObject = true) :
    a.normal.alternatives.any isNull = false := by
  have halone : a.normal.alternatives = [a.normal] := by
    cases a with
    | atom text => rfl
    | object members => rfl
    | _ => cases h
  rw [halone, List.any_cons, List.any_nil, Bool.or_false, Bool.eq_false_iff]
  intro hnull
  rw [← isObject_normal, isObject_of_isNull hnull] at h
  cases h

end TypeTree

/-! ## The first brace -/

namespace TypeText

open Text (joinWith joinStrings toList_joinStrings)
open TypeTree (unionOf)

/-- A text that begins with another character than a brace, or with braces around an even
text. The flag says whether these braces enclose the whole text. -/
inductive Delimited : List Char → Bool → Prop
  | other {c : Char} {t : List Char} (h : c ≠ '\x7b') : Delimited (c :: t) false
  | braces {inside rest : List Char} (h : Even inside) :
      Delimited ('\x7b' :: inside ++ '\x7d' :: rest) rest.isEmpty

variable {t u : List Char} {whole : Bool}

/-- No brace encloses a text together with what is put behind it. -/
theorem Delimited.append (h : Delimited t whole) (hu : u ≠ []) : Delimited (t ++ u) false := by
  cases h with
  | other h => exact .other h
  | @braces inside rest h =>
    have hmore : (rest ++ u).isEmpty = false :=
      List.isEmpty_eq_false_iff.2 fun e => hu (List.append_eq_nil_iff.1 e).2
    rw [List.append_assoc, List.cons_append, ← hmore]
    exact .braces h

/-- A text that its first brace encloses has no bar outside of brackets. -/
theorem Delimited.topLevel (h : Delimited t whole) (hwhole : whole = true) :
    (topLevel t).contains '|' = false := by
  cases h with
  | other h => cases hwhole
  | @braces inside rest h =>
    obtain rfl := List.isEmpty_iff.1 hwhole
    have hpair : ('\x7b', '\x7d') ∈ brackets := by decide
    rw [Bool.eq_false_iff, ne_eq, List.contains_iff_mem, mem_topLevel_iff rfl]
    exact unbarred_bracketed hpair h 0

/-- A text without a closing brace at depth zero is passed over. -/
theorem closesLast_append {s : Scan} (h : ('\x7d', 0) ∉ scanFrom s t) (u : List Char) :
    closesLast s (t ++ u) = closesLast (s.after t) u := by
  induction t generalizing s with
  | nil => rfl
  | cons c t ih =>
    obtain ⟨hne, htail⟩ := not_or.1 (mt mem_scanFrom_cons.2 h)
    rw [List.cons_append, closesLast, if_neg hne, ih htail]
    rfl

/-- A text is found to be one object literal exactly if its first brace encloses all of it. -/
theorem isObjectLiteral_of_delimited (h : Delimited t whole) : isObjectLiteral t = whole := by
  cases h with
  | other h =>
    have hhead : ∀ c (t : List Char), c ≠ '\x7b' → (c :: t).head? ≠ some '\x7b' :=
      fun c t hc e => hc (Option.some.inj e)
    rw [isObjectLiteral, decide_eq_false (hhead _ _ h), Bool.false_and, Bool.false_and]
  | @braces inside rest h =>
    -- inside the braces nothing stands at depth zero
    have hinside : ('\x7d', 0) ∉ scanFrom (outside 1) inside := by
      intro hmem
      exact absurd (h.deep 1 _ hmem) (by decide)
    have hclose : closesLast .start ('\x7b' :: inside ++ '\x7d' :: rest) = rest.isEmpty := by
      have hfirst : closesLast .start ('\x7b' :: (inside ++ '\x7d' :: rest)) =
          closesLast (outside 1) (inside ++ '\x7d' :: rest) := rfl
      rw [List.cons_append, hfirst, closesLast_append hinside, h.after]
      rfl
    rw [isObjectLiteral, hclose]
    cases rest with
    | nil =>
      have hlast : ('\x7b' :: inside ++ ['\x7d']).getLast? = some '\x7d' := List.getLast?_concat
      rw [hlast]
      rfl
    | cons c rest => exact Bool.and_false _

/-! ## Operations -/

variable {text : String} {δ : TypeTree}

/-- A text that spells a type and is enclosed by its first brace exactly if this is an object. -/
def Shaped (text : String) (δ : TypeTree) : Prop :=
  Spelled text δ ∧ Delimited text.toList δ.isObject

theorem delimited_of_head {c : Char} (htext : text.toList = c :: t) (hc : c ≠ '\x7b') :
    Delimited text.toList (text.toList.head? = some '\x7b') := by
  have hhead : (c :: t).head? ≠ some '\x7b' := fun e => hc (Option.some.inj e)
  rw [htext, decide_eq_false hhead]
  exact .other hc

theorem delimited_word (hne : text.toList ≠ []) (h : ∀ c, c ∈ text.toList → isWordPart c = true) :
    Delimited text.toList (text.toList.head? = some '\x7b') := by
  obtain ⟨c, s, htext⟩ := List.exists_cons_of_ne_nil hne
  exact delimited_of_head htext (ne_of_isWordPart (h c (htext ▸ List.mem_cons_self)) rfl)

/-- A JSON value that begins with a brace is enclosed by it. -/
theorem delimited_of_form {text : String} (h : Json.Form text) :
    Delimited text.toList (text.toList.head? = some '\x7b') := by
  cases h with
  | constant h => exact delimited_word (isWordPart_constant h).1 (isWordPart_constant h).2
  | int i => exact delimited_word (intText_ne_nil i) fun _ hc => isWordPart_intText hc
  | float x => exact delimited_word (isWordPart_floatText x).1 (isWordPart_floatText x).2
  | string s =>
    obtain ⟨t, -, htext⟩ := escaped_stringText s
    exact delimited_of_head htext (by decide)
  | @list ts _ =>
    have htext : ("[" ++ joinStrings ", " ts ++ "]").toList =
        '[' :: ((joinStrings ", " ts).toList ++ [']']) := by simp
    exact delimited_of_head htext (by decide)
  | @map ms hms =>
    have hinside : Even (joinStrings ", " (ms.map Json.member)).toList := by
      refine (inert_items fun t ht => ?_).even
      obtain ⟨m, hm, rfl⟩ := List.mem_map.1 ht
      exact (inert_member (isLiteral_of_form (hms m hm)).inert).1
    have htext : ("\x7b" ++ joinStrings ", " (ms.map Json.member) ++ "\x7d").toList =
        '\x7b' :: (joinStrings ", " (ms.map Json.member)).toList ++ ['\x7d'] := by simp
    rw [htext]
    exact .braces hinside

theorem Shaped.withNull (h : Shaped text δ) (n : Bool) : Shaped (withNull n text) (δ.orNull n) := by
  refine ⟨h.1.withNull n, ?_⟩
  cases n with
  | false => exact h.2
  | true =>
    have hunion : (δ.orNull true).isObject = false := rfl
    rw [hunion, TypeText.withNull, Bool.not_true, Bool.false_or]
    split
    next hnull =>
      -- what has null among its alternatives is no object
      obtain ⟨τ, hτ, hsame⟩ := h.1
      have hany := hτ.any_isNull hnull
      rw [hsame] at hany
      have hobject : δ.isObject = false := by
        by_contra hobject
        rw [TypeTree.any_isNull_of_isObject (Bool.of_not_eq_false hobject)] at hany
        cases hany
      exact hobject ▸ h.2
    next =>
      rw [String.toList_append]
      exact h.2.append (by decide)

theorem Shaped.arrayOf (h : Shaped text δ) : Shaped (arrayOf text) (.array δ) := by
  refine ⟨h.1.arrayOf, ?_⟩
  have hobject : (TypeTree.array δ).isObject = false := rfl
  rw [hobject, TypeText.arrayOf]
  split
  next =>
    rw [String.toList_append, String.toList_append]
    exact .other (by decide)
  next =>
    rw [String.toList_append]
    exact h.2.append (by decide)

/-- An operand in parentheses is a proper union, so that it is no object. -/
theorem Shaped.operand (h : Shaped text δ) : Delimited (operand text).toList δ.isObject := by
  unfold TypeText.operand
  split
  next hbar =>
    have hobject : δ.isObject = false := by
      by_contra hobject
      rw [h.2.topLevel (Bool.of_not_eq_false hobject)] at hbar
      cases hbar
    rw [hobject, String.toList_append, String.toList_append]
    exact .other (by decide)
  next => exact h.2

/-- Texts with a separator between them begin with an object, but are none, if there are two at
least. -/
theorem delimited_joinStrings {sep : String} (hsep : sep.toList ≠ [])
    {tree : List TypeTree → TypeTree} (hone : ∀ a, tree [a] = a)
    (hmore : ∀ a b l, (tree (a :: b :: l)).isObject = false) {ts : List String}
    {δs : List TypeTree} (hne : ts ≠ [])
    (h : List.Forall₂ (fun t δ => Delimited t.toList δ.isObject) ts δs) :
    Delimited (joinStrings sep ts).toList (tree δs).isObject := by
  cases h with
  | nil => exact absurd rfl hne
  | cons hhead htail =>
    cases htail with
    | nil => exact (hone _).symm ▸ hhead
    | cons hnext hrest =>
      rw [hmore, joinStrings, String.toList_append, String.toList_append, List.append_assoc]
      exact hhead.append fun e => hsep (List.append_eq_nil_iff.1 e).1

theorem shaped_union {ts : List String} {δs : List TypeTree} (hne : ts ≠ [])
    (h : List.Forall₂ Shaped ts δs) : Shaped (joinStrings " | " ts) (unionOf δs) :=
  ⟨spelled_union hne (h.imp fun _ _ hs => hs.1),
    delimited_joinStrings (by decide) (fun _ => rfl) (fun _ _ _ => rfl) hne
      (h.imp fun _ _ hs => hs.2)⟩

theorem shaped_compose (mode : Composition) {ts : List String} {δs : List TypeTree}
    (h : List.Forall₂ Shaped ts δs) : Shaped (compose mode ts) (TypeTree.composed mode δs) := by
  refine ⟨spelled_compose mode (h.imp fun _ _ hs => hs.1), ?_⟩
  cases h with
  | nil =>
    have hunknown : Delimited unknown.toList (TypeTree.atom unknown).isObject :=
      delimited_word (by decide) (List.all_eq_true.1 (by decide))
    exact hunknown
  | @cons t δ ts δs hhead htail =>
    have hall := List.Forall₂.cons hhead htail
    cases mode with
    | allOf =>
      have hoperands := hall.imp fun _ _ hs => Shaped.operand hs
      exact delimited_joinStrings (by decide) (fun _ => rfl) (fun _ _ _ => rfl)
        (List.cons_ne_nil _ _) (List.forall₂_map_left_iff.2 hoperands)
    | oneOf => exact (shaped_union (List.cons_ne_nil _ _) hall).2
    | anyOf => exact (shaped_union (List.cons_ne_nil _ _) hall).2

/-- Members in braces are enclosed by the first one. -/
theorem shaped_braced {ts : List String} {ms : List (String × Bool × TypeTree)} (hne : ts ≠ [])
    (h : List.Forall₂ (fun t m => ∃ type, Shaped type m.2.2 ∧
      t = member (Naming.propertyKey m.1) (!m.2.1) type) ts ms) :
    Shaped (braced ts) (.object ms) := by
  have hspelled := h.imp fun t m ⟨type, htype, ht⟩ => (⟨type, htype.1, ht⟩ :
    ∃ type, Spelled type m.2.2 ∧ t = member (Naming.propertyKey m.1) (!m.2.1) type)
  refine ⟨spelled_braced hne hspelled, ?_⟩
  obtain ⟨parts, hparts, htexts, -⟩ := exists_members hspelled
  have hblank : Even [' '] := even_of_isPlain (List.all_eq_true.1 (by decide))
  have hjoined : Even (joinWith semicolon (ts.map String.toList)) := by
    refine even_joinWith (even_of_isPlain (List.all_eq_true.1 (by decide))) fun t ht => ?_
    obtain ⟨p, hp, rfl⟩ := List.mem_map.1 (htexts.symm ▸ ht)
    exact (hparts p hp).even
  have htext : (braced ts).toList =
      '\x7b' :: ([' '] ++ (joinWith semicolon (ts.map String.toList) ++ [' '])) ++ ['\x7d'] := by
    simp [braced, toList_joinStrings, semicolon]
  rw [htext]
  exact .braces (hblank.append (hjoined.append hblank))

end TypeText

namespace Schema

open TypeText (Shaped)

variable {names : Ordered String}

theorem shaped_literal {v : Value} {text : String} (h : literal v = .ok text) :
    Shaped text (TypeTree.literal text) := by
  refine ⟨spelled_literal h, ?_⟩
  rw [TypeTree.isObject_literal]
  unfold literal at h
  split at h
  next s =>
    cases h
    exact TypeText.delimited_of_head String.toList_ofList (by decide)
  next =>
    split at h
    next t ht =>
      cases h
      exact TypeText.delimited_of_form (Json.form_compact _ _ ht)
    next => cases h

/-- Being enclosed by the first brace exactly as an object is compositional. -/
theorem compositional_shaped : Compositional Shaped where
  identifier h := by
    refine ⟨compositional_spelled.identifier h, ?_⟩
    obtain ⟨⟨c, rest, hs, -⟩, hall⟩ := TypeText.parts_of_isIdentifier h
    exact TypeText.delimited_word (hs ▸ List.cons_ne_nil c rest) hall
  literal h := shaped_literal h
  empty := by
    have hnil : TypeText.Even [] := TypeText.even_of_isPlain fun _ hc => absurd hc List.not_mem_nil
    exact ⟨TypeText.spelled_empty, @TypeText.Delimited.braces [] [] hnil⟩
  withNull h n := h.withNull n
  arrayOf h := h.arrayOf
  dictionary h := by
    refine ⟨h.1.dictionary, ?_⟩
    rw [String.toList_append, String.toList_append]
    exact .other (by decide)
  union hne h := TypeText.shaped_union hne h
  compose mode _ _ h := TypeText.shaped_compose mode h
  braced hne h := TypeText.shaped_braced hne h

/-- A type that is written from a schema, with its references kept or followed, is declared as an
interface if its body is read as an object, and as an alias if it is read as any other type. -/
theorem declaration_render (hnames : ∀ e, e ∈ names → Naming.isIdentifier e.2.toList = true)
    (s : Schema) {body : String} (h : s.render names = .ok body ∨
      ∃ index, (s.renderOperation index names).outcome = .ok body) (name source : String) :
    ∃ τ, TypeText.read body = some τ ∧
      (GeneratedType.mk name body source).declaration =
        if τ.isObject then "export interface " ++ name ++ " " ++ body
        else "export type " ++ name ++ " = " ++ body ++ ";" := by
  -- with references followed, the body is that of another schema
  obtain ⟨r, hr⟩ : ∃ r : Schema, r.render names = .ok body := by
    rcases h with h | ⟨index, h⟩
    · exact ⟨s, h⟩
    · exact ⟨_, (outcome_renderOperation hnames index s).symm.trans h⟩
  obtain ⟨δ, -, hspelled, hdelimited⟩ := compositional_shaped.of_render hnames r body hr
  obtain ⟨τ, hτ, hsame⟩ := hspelled.read
  refine ⟨τ, hτ, ?_⟩
  rw [GeneratedType.declaration, TypeText.isObjectLiteral_of_delimited hdelimited, hsame.isObject]

/-- One of two objects, each with a quoted brace inside. -/
def marks : Schema :=
  .composite .oneOf
    [.object [("close", .primitive none none (some [.str "\x7d"]) false)] ["close"] none false,
      .object [("open", .primitive none none (some [.str "\x7b"]) false)] [] none false] false

/-- The text of `marks`, which begins and ends with a brace. -/
def marksText : String := "\x7b close: '\x7d' \x7d | \x7b open?: '\x7b' \x7d"

theorem declaration_render_marks :
    (∀ e, e ∈ [("Mark", "Mark")] → Naming.isIdentifier e.2.toList = true) ∧
      marks.render [("Mark", "Mark")] = .ok marksText ∧
      ∃ τ, TypeText.read marksText = some τ ∧
        (GeneratedType.mk "Mark" marksText "Mark").declaration =
          if τ.isObject then "export interface " ++ "Mark" ++ " " ++ marksText
          else "export type " ++ "Mark" ++ " = " ++ marksText ++ ";" := by
  have hnames : ∀ e, e ∈ [("Mark", "Mark")] → Naming.isIdentifier e.2.toList = true := by decide
  have htext : marks.render [("Mark", "Mark")] = .ok marksText :=
    Failure.eq_ok_of_toOption (by decide +kernel)
  exact ⟨hnames, htext, declaration_render hnames marks (Or.inl htext) "Mark" "Mark"⟩

end Schema

end TypedClients
