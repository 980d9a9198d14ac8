import TypedClients.Proofs.Client.Imports
import TypedClients.Proofs.TypeText.Names

/-!
# The words of a written type

The scan finds the words of a text outside quoted parts, whether they name types or not. Here
it is followed through written types. Types are put together with signs, which no word runs
across, so the words of a written type are those of its tokens: names of types, keys that need
no quotes, and what stands in literal values outside strings.

* `identifiers_between`: what stands on two sides of a sign is scanned apart.
* `compositional_worded`: the words of a text are those of the type that it is the text of.
* `Worded.read`: so they are the words of the type that the text is read as.
-/

namespace TypedClients

open Naming (isBareKey isIdentifier isIdentifierPart isIdentifierStart)
open TypeText (Spelled)

/-! ## Words of types -/

namespace TypeTree

/-- The words of a token that are a key. -/
def Token.keyWords : Token → List String
  | atom _ => []
  | record => []
  | key name => if isBareKey name.toList then [Naming.identifier name] else []

/-- The words of a token that stand in a literal value. -/
def Token.literalWords : Token → List String
  | atom text => if isIdentifier text.toList then [] else Client.identifiers text
  | record => []
  | key _ => []

/-- The words of a token. -/
def Token.words (k : Token) : List String := k.names ++ k.keyWords ++ k.literalWords

/-- The keys in a type that are written without quotes. -/
def keyWords (t : TypeTree) : List String := t.tokens.flatMap Token.keyWords

/-- The words in the literal values of a type. -/
def literalWords (t : TypeTree) : List String := t.tokens.flatMap Token.literalWords

/-- The words of a type. -/
def words (t : TypeTree) : List String := t.tokens.flatMap Token.words

variable {n : String}

/-- There are three kinds of words. -/
theorem mem_words_iff (t : TypeTree) :
    n ∈ t.words ↔ n ∈ t.names ∨ n ∈ t.keyWords ∨ n ∈ t.literalWords := by
  rw [mem_names_iff, words, keyWords, literalWords]
  simp only [List.mem_flatMap, Token.words, List.mem_append, and_or_left, exists_or, or_assoc]

/-- The same types have the same words. -/
theorem Same.mem_words {s t : TypeTree} (h : Same s t) : n ∈ s.words ↔ n ∈ t.words := by
  rw [words, words]
  simp only [List.mem_flatMap, h.mem_tokens]

theorem mem_words_union {a b : TypeTree} : n ∈ (union a b).words ↔ n ∈ a.words ∨ n ∈ b.words := by
  rw [words, words, words, tokens, List.flatMap_append, List.mem_append]

/-- A type that has the tokens of others has their words. -/
theorem mem_words_of_tokens {t : TypeTree} {l : List TypeTree}
    (h : ∀ k, k ∈ t.tokens ↔ ∃ s, s ∈ l ∧ k ∈ s.tokens) :
    n ∈ t.words ↔ ∃ s, s ∈ l ∧ n ∈ s.words := by
  simp only [words, List.mem_flatMap, h]
  constructor
  · rintro ⟨k, ⟨s, hs, hk⟩, hn⟩
    exact ⟨s, hs, k, hk, hn⟩
  · rintro ⟨s, hs, k, hk, hn⟩
    exact ⟨k, ⟨s, hs, hk⟩, hn⟩

theorem mem_words_unionOf {l : List TypeTree} (h : l ≠ []) :
    n ∈ (unionOf l).words ↔ ∃ t, t ∈ l ∧ n ∈ t.words :=
  mem_words_of_tokens fun _ => mem_tokens_unionOf h

theorem mem_words_interOf {l : List TypeTree} (h : l ≠ []) :
    n ∈ (interOf l).words ↔ ∃ t, t ∈ l ∧ n ∈ t.words :=
  mem_words_of_tokens fun _ => mem_tokens_interOf h

end TypeTree

namespace Client

open Text (joinStrings)
open TypeText (operand)
open TypeTree (Token)

/-! ## Scanning across signs -/

/-- Characters that are in no word and open no quoted part, one at least. -/
def Signs (s : List Char) : Prop :=
  s ≠ [] ∧ ∀ c, c ∈ s → isIdentifierPart c = false ∧ c ≠ '\x27' ∧ c ≠ '\x22'

instance (s : List Char) : Decidable (Signs s) :=
  @instDecidableAnd _ _ inferInstance (List.decidableBAll _ s)

variable {s t u : String} {n : String} {δ : TypeTree}

theorem Signs.plain {s : List Char} (h : Signs s) : Plain s := fun c hc => (h.2 c hc).2

theorem not_isIdentifierStart {c : Char} (h : isIdentifierPart c = false) :
    isIdentifierStart c = false :=
  Bool.eq_false_iff.2 fun hstart => by
    rw [Naming.isIdentifierPart_of_start hstart] at h
    cases h

/-- No word begins in signs. -/
theorem identifiersFrom_skip {s : List Char} (h : ∀ c, c ∈ s → isIdentifierPart c = false)
    (u : List Char) : identifiersFrom [] (s ++ u) = identifiersFrom [] u := by
  induction s with
  | nil => rfl
  | cons c s ih =>
    have hc := not_isIdentifierStart (h c List.mem_cons_self)
    rw [List.cons_append, identifiersFrom, List.isEmpty_nil, if_pos rfl, hc,
      if_neg Bool.false_ne_true, ih fun d hd => h d (List.mem_cons_of_mem _ hd)]

/-- A word ends at a sign at the latest. -/
theorem identifiersFrom_cons {c : Char} (hc : isIdentifierPart c = false)
    (current t u : List Char) :
    identifiersFrom current (t ++ c :: u) = identifiersFrom current t ++ identifiersFrom [] u := by
  -- on the text ahead of the sign: each of its characters is read as if nothing followed
  induction t generalizing current with
  | nil =>
    rw [List.nil_append, identifiersFrom, identifiersFrom, not_isIdentifierStart hc, hc]
    cases current.isEmpty <;> rfl
  | cons d t ih =>
    rw [List.cons_append, identifiersFrom, identifiersFrom]
    simp only [ih]
    cases current.isEmpty <;> cases isIdentifierStart d <;> cases isIdentifierPart d <;> rfl

theorem identifiersFrom_signs {s : List Char} (h : Signs s) (current t u : List Char) :
    identifiersFrom current (t ++ s ++ u) =
      identifiersFrom current t ++ identifiersFrom [] u := by
  obtain ⟨c, s, rfl⟩ := List.exists_cons_of_ne_nil h.1
  have hparts : ∀ d, d ∈ c :: s → isIdentifierPart d = false := fun d hd => (h.2 d hd).1
  rw [List.append_assoc, List.cons_append, identifiersFrom_cons (hparts c List.mem_cons_self),
    identifiersFrom_skip fun d hd => hparts d (List.mem_cons_of_mem _ hd)]

/-- What stands on two sides of signs is scanned apart. -/
theorem identifiers_between (ht : Balanced t.toList) (hs : Signs s.toList) :
    identifiers (t ++ s ++ u) = identifiers t ++ identifiers u := by
  rw [identifiers, String.toList_append, String.toList_append, ht.append hs.plain.balanced, ht,
    hs.plain.unquoted_eq, identifiersFrom_signs hs]
  rfl

theorem identifiers_empty : identifiers "" = [] := by decide +kernel

theorem identifiers_behind (hs : Signs s.toList) : identifiers (s ++ u) = identifiers u := by
  have hempty : Balanced ("" : String).toList := Plain.balanced (by decide)
  have hbetween := identifiers_between (u := u) hempty hs
  rwa [String.empty_append, identifiers_empty, List.nil_append] at hbetween

theorem identifiers_ahead (ht : Balanced t.toList) (hs : Signs s.toList) :
    identifiers (t ++ s) = identifiers t := by
  have hbetween := identifiers_between (u := "") ht hs
  rwa [String.append_empty, identifiers_empty, List.append_nil] at hbetween

/-- A text between signs. -/
theorem identifiers_bracketed {o c : String} (ho : Signs o.toList) (hc : Signs c.toList)
    (ht : Balanced t.toList) : identifiers (o ++ t ++ c) = identifiers t := by
  have hahead : Balanced (o ++ t).toList := by
    rw [String.toList_append]
    exact ho.plain.balanced.append ht
  rw [identifiers_ahead hahead hc, identifiers_behind ho]

theorem identifiers_joinStrings {sep : String} (hsep : Signs sep.toList) {ts : List String}
    (h : ∀ t, t ∈ ts → Balanced t.toList) :
    identifiers (joinStrings sep ts) = ts.flatMap identifiers := by
  induction ts with
  | nil => exact identifiers_empty
  | cons t rest ih =>
    have hrest := ih fun v hv => h v (List.mem_cons_of_mem _ hv)
    cases rest with
    | nil => rw [joinStrings, List.flatMap_singleton]
    | cons u rest =>
      rw [joinStrings, identifiers_between (h t List.mem_cons_self) hsep, hrest]
      rfl

/-! ## Keys and members -/

theorem plain_of_isIdentifier {s : List Char} (h : isIdentifier s = true) : Plain s :=
  plain_of_isWordPart (TypeText.parts_of_isIdentifier h).2

theorem identifier_eq_self {name : String} (h : isIdentifier name.toList = true) :
    Naming.identifier name = name := by
  rw [Naming.identifier, Naming.identifierChars_eq_self_iff.2 h, String.ofList_toList]

/-- A line feed behind an identifier is in no identifier. -/
theorem identifier_line {word : String} (h : isIdentifier word.toList = true) :
    Naming.identifier (word ++ "\n") = word := by
  have hline : ("\n" : String).toList = ['\n'] := rfl
  have hnone : ['\n'].filter isIdentifierPart = [] := by decide
  have hchars : Naming.identifierChars (word.toList ++ ['\n']) =
      Naming.identifierChars word.toList := by
    rw [Naming.identifierChars, Naming.identifierChars, List.filter_append, hnone, List.append_nil]
  rw [Naming.identifier, String.toList_append, hline, hchars,
    Naming.identifierChars_eq_self_iff.2 h, String.ofList_toList]

/-- A key is one word if it needs no quotes, and none otherwise. -/
theorem identifiers_propertyKey (name : String) :
    identifiers (Naming.propertyKey name) = (Token.key name).words := by
  have hwords : (Token.key name).words = (Token.key name).keyWords := List.append_nil _
  rw [hwords, Naming.propertyKey, Token.keyWords]
  split
  next h =>
    rw [isBareKey, Bool.or_eq_true, Bool.and_eq_true, decide_eq_true_eq] at h
    rcases h with h | ⟨hlast, h⟩
    · rw [identifier_eq_self h, identifiers_eq_singleton h]
    -- the line feed behind the identifier is a sign
    · obtain ⟨word, hword⟩ : ∃ word : String, word.toList = name.toList.dropLast :=
        ⟨_, String.toList_ofList⟩
      have hname : name = word ++ "\n" := by
        rw [← String.toList_inj, String.toList_append, hword]
        exact (List.dropLast_append_getLast? _ hlast).symm
      rw [← hword] at h
      have hline : Signs ("\n" : String).toList := by decide
      rw [hname, identifier_line h, identifiers_ahead (plain_of_isIdentifier h).balanced hline,
        identifiers_eq_singleton h]
  next h =>
    rw [identifiers, (balanced_singleQuoted name).2]
    rfl

/-- A member has the words of its key and those of its type. -/
theorem identifiers_member {key type : String} (hkey : Balanced key.toList)
    (required : Bool) :
    identifiers (TypeText.member key required type) = identifiers key ++ identifiers type := by
  obtain ⟨signs, hsigns, htext⟩ : ∃ signs : String, Signs signs.toList ∧
      TypeText.member key required type = key ++ signs ++ type := by
    unfold TypeText.member
    cases required with
    | true => exact ⟨": ", by decide, by rw [if_pos rfl, String.append_empty]⟩
    | false =>
      have hboth : "?: " = "?" ++ ": " := rfl
      refine ⟨"?: ", by decide, ?_⟩
      rw [if_neg Bool.false_ne_true, hboth, ← String.append_assoc]
  rw [htext, identifiers_between hkey hsigns]

/-! ## Scanning types -/

/-- A text whose quoted parts are closed and whose words are those of a type. -/
structure Scanned (text : String) (δ : TypeTree) : Prop where
  balanced : Balanced text.toList
  words : ∀ n, n ∈ identifiers text ↔ n ∈ δ.words

theorem mem_words_atom {text : String} : n ∈ (TypeTree.atom text).words ↔ n ∈ identifiers text := by
  have hwords : (TypeTree.atom text).words = (Token.atom text).words := List.append_nil _
  rw [hwords, Token.words, Token.names, Token.keyWords, Token.literalWords]
  split
  next h => rw [identifiers_eq_singleton h, List.append_nil, List.append_nil]
  next => rw [List.append_nil, List.nil_append]

theorem scanned_atom {text : String} (h : Balanced text.toList) : Scanned text (.atom text) :=
  ⟨h, fun _ => mem_words_atom.symm⟩

theorem Scanned.bracketed {o c : String} (ho : Signs o.toList) (hc : Signs c.toList)
    (h : Scanned t δ) : Scanned (o ++ t ++ c) δ := by
  refine ⟨piecewise_balanced.between ho.plain hc.plain h.balanced, fun n => ?_⟩
  rw [identifiers_bracketed ho hc h.balanced, h.words]

theorem Scanned.arrayOf (h : Scanned t δ) : Scanned (TypeText.arrayOf t) (.array δ) := by
  have hsigns : Signs ("[]" : String).toList := by decide
  have hwords : ∀ n, n ∈ identifiers (TypeText.arrayOf t) ↔ n ∈ δ.words := by
    intro n
    unfold TypeText.arrayOf
    split
    · exact (h.bracketed (by decide) (by decide)).words n
    · rw [identifiers_ahead h.balanced hsigns, h.words]
  exact ⟨piecewise_balanced.arrayOf h.balanced, hwords⟩

theorem Scanned.operand (h : Scanned t δ) : Scanned (operand t) δ := by
  unfold TypeText.operand
  split
  · exact h.bracketed (by decide) (by decide)
  · exact h

theorem Scanned.dictionary (h : Scanned t δ) :
    Scanned ("Record<string, " ++ t ++ ">") (.record δ) := by
  have hname : Balanced ("Record<string" : String).toList := Plain.balanced (by decide)
  have hsigns : Signs (", " : String).toList := by decide
  have hclose : Signs (">" : String).toList := by decide
  have hwords : identifiers "Record<string" = Token.record.words := by decide +kernel
  have htext : "Record<string, " ++ t = "Record<string" ++ ", " ++ t := rfl
  have hopen : Balanced ("Record<string, " ++ t).toList := by
    rw [htext, String.toList_append, String.toList_append]
    exact (hname.append hsigns.plain.balanced).append h.balanced
  refine ⟨piecewise_balanced.dictionary h.balanced, fun n => ?_⟩
  rw [identifiers_ahead hopen hclose, htext, identifiers_between hname hsigns, hwords,
    List.mem_append, h.words]
  exact List.mem_append.symm

/-- Scanned texts are balanced, and the words of all of them are those of their types. -/
theorem words_of_forall₂ {ts : List String} {δs : List TypeTree} (h : List.Forall₂ Scanned ts δs) :
    (∀ t, t ∈ ts → Balanced t.toList) ∧
      ∀ n, n ∈ ts.flatMap identifiers ↔ ∃ δ, δ ∈ δs ∧ n ∈ δ.words := by
  induction h with
  | nil => exact ⟨fun _ ht => absurd ht List.not_mem_nil, fun n => by simp⟩
  | cons hhead _ ih =>
    refine ⟨List.forall_mem_cons.2 ⟨hhead.balanced, ih.1⟩, fun n => ?_⟩
    rw [List.flatMap_cons, List.mem_append, hhead.words, ih.2]
    simp only [List.mem_cons, exists_eq_or_imp]

theorem scanned_union {ts : List String} {δs : List TypeTree} (hne : ts ≠ [])
    (h : List.Forall₂ Scanned ts δs) :
    Scanned (joinStrings " | " ts) (TypeTree.unionOf δs) := by
  obtain ⟨hbalanced, hwords⟩ := words_of_forall₂ h
  have hsigns : Signs (" | " : String).toList := by decide
  have hne' : δs ≠ [] := fun he => hne (List.forall₂_nil_right_iff.1 (he ▸ h))
  refine ⟨piecewise_balanced.joinStrings hsigns.plain.balanced hbalanced, fun n => ?_⟩
  rw [identifiers_joinStrings hsigns hbalanced, hwords, TypeTree.mem_words_unionOf hne']

theorem scanned_inter {ts : List String} {δs : List TypeTree} (hne : ts ≠ [])
    (h : List.Forall₂ Scanned ts δs) :
    Scanned (joinStrings " & " (ts.map operand)) (TypeTree.interOf δs) := by
  have hoperands : List.Forall₂ Scanned (ts.map operand) δs :=
    List.forall₂_map_left_iff.2 (h.imp fun _ _ hs => hs.operand)
  obtain ⟨hbalanced, hwords⟩ := words_of_forall₂ hoperands
  have hsigns : Signs (" & " : String).toList := by decide
  have hne' : δs ≠ [] := fun he => hne (List.forall₂_nil_right_iff.1 (he ▸ h))
  refine ⟨piecewise_balanced.joinStrings hsigns.plain.balanced hbalanced, fun n => ?_⟩
  rw [identifiers_joinStrings hsigns hbalanced, hwords, TypeTree.mem_words_interOf hne']

theorem scanned_compose (mode : Composition) {ts : List String} {δs : List TypeTree}
    (h : List.Forall₂ Scanned ts δs) :
    Scanned (TypeText.compose mode ts) (TypeTree.composed mode δs) := by
  cases h with
  | nil =>
    have hunknown : Plain TypeText.unknown.toList := by decide
    exact scanned_atom hunknown.balanced
  | cons hhead htail =>
    have hall := List.Forall₂.cons hhead htail
    cases mode with
    | allOf => exact scanned_inter (List.cons_ne_nil _ _) hall
    | oneOf => exact scanned_union (List.cons_ne_nil _ _) hall
    | anyOf => exact scanned_union (List.cons_ne_nil _ _) hall

/-- Scanned members are balanced, and their words are those of an object type. -/
theorem words_of_members {ts : List String} {ms : List (String × Bool × TypeTree)}
    (h : List.Forall₂ (fun t m => ∃ type, Scanned type m.2.2 ∧
      t = TypeText.member (Naming.propertyKey m.1) (!m.2.1) type) ts ms) :
    (∀ t, t ∈ ts → Balanced t.toList) ∧
      ∀ n, n ∈ ts.flatMap identifiers ↔ n ∈ (TypeTree.object ms).words := by
  induction h with
  | nil => exact ⟨fun _ ht => absurd ht List.not_mem_nil, fun n => Iff.rfl⟩
  | @cons t m ts ms hhead _ ih =>
    obtain ⟨type, htype, rfl⟩ := hhead
    obtain ⟨name, optional, δ⟩ := m
    have hkey : Balanced (Naming.propertyKey name).toList := piecewise_balanced.propertyKey name
    have hmember := piecewise_balanced.member hkey htype.balanced (!optional)
    refine ⟨List.forall_mem_cons.2 ⟨hmember, ih.1⟩, fun n => ?_⟩
    rw [List.flatMap_cons, List.mem_append, identifiers_member hkey, List.mem_append,
      identifiers_propertyKey, htype.words, ih.2]
    simp only [TypeTree.words, TypeTree.tokens, TypeTree.tokensOfMembers, List.flatMap_cons,
      List.flatMap_append, List.mem_append, or_assoc]

theorem scanned_braced {ts : List String} {ms : List (String × Bool × TypeTree)}
    (h : List.Forall₂ (fun t m => ∃ type, Scanned type m.2.2 ∧
      t = TypeText.member (Naming.propertyKey m.1) (!m.2.1) type) ts ms) :
    Scanned (TypeText.braced ts) (.object ms) := by
  obtain ⟨hbalanced, hwords⟩ := words_of_members h
  have hsigns : Signs ("; " : String).toList := by decide
  have hinside : Scanned (joinStrings "; " ts) (.object ms) :=
    ⟨piecewise_balanced.joinStrings hsigns.plain.balanced hbalanced, fun n => by
      rw [identifiers_joinStrings hsigns hbalanced, hwords]⟩
  exact hinside.bracketed (by decide) (by decide)

/-! ## Texts of types -/

/-- A text that spells a type and is scanned as it. -/
structure Worded (text : String) (δ : TypeTree) : Prop extends Scanned text δ where
  spelled : Spelled text δ

/-- Where null is said among the alternatives, null is in the type. -/
theorem null_mem_words (h : Spelled t δ) (hnull : TypeText.hasNull t = true) :
    "null" ∈ δ.words := by
  obtain ⟨τ, hτ, hsame⟩ := h
  obtain ⟨a, ha, hisNull⟩ := List.any_eq_true.1 (hτ.any_isNull hnull)
  have htoken : Token.atom "null" ∈ a.tokens := by
    rw [TypeTree.eq_null_of_isNull hisNull]
    exact List.mem_singleton.2 rfl
  have hmem : Token.atom "null" ∈ δ.tokens := by
    rw [← hsame.mem_tokens, ← TypeTree.mem_tokens_normal, ← TypeTree.mem_tokens_alternatives]
    exact ⟨a, ha, htoken⟩
  exact List.mem_flatMap.2 ⟨_, hmem, by decide +kernel⟩

theorem Worded.withNull (h : Worded t δ) (n : Bool) :
    Worded (TypeText.withNull n t) (δ.orNull n) := by
  refine ⟨⟨piecewise_balanced.withNull h.balanced n, ?_⟩, h.spelled.withNull n⟩
  unfold TypeText.withNull
  cases n with
  | false => exact h.words
  | true =>
    have hsigns : Signs (" | " : String).toList := by decide
    have hmem : ∀ n, n ∈ (δ.orNull true).words ↔ n ∈ δ.words ∨ n ∈ identifiers "null" := by
      intro n
      rw [← mem_words_atom]
      exact TypeTree.mem_words_union
    intro n
    rw [Bool.not_true, Bool.false_or]
    split
    next hhas =>
      have hone : identifiers "null" = ["null"] := by decide +kernel
      rw [hmem, h.words, hone, List.mem_singleton]
      exact ⟨Or.inl, fun hn => hn.elim id fun hn => hn ▸ null_mem_words h.spelled hhas⟩
    next =>
      have htext : t ++ " | null" = t ++ " | " ++ "null" := by
        rw [String.append_assoc]
        rfl
      rw [hmem, htext, identifiers_between h.balanced hsigns, List.mem_append, h.words]

theorem scanned_empty : Scanned "\x7b\x7d" (.object []) where
  balanced := Plain.balanced (by decide)
  words n := by
    have hnone : identifiers "\x7b\x7d" = [] := by decide +kernel
    rw [hnone]
    rfl

/-- Having the words of a type is compositional. -/
theorem compositional_worded : Schema.Compositional Worded where
  identifier h :=
    ⟨scanned_atom (plain_of_isIdentifier h).balanced, Schema.compositional_spelled.identifier h⟩
  literal {v text} h := by
    refine ⟨?_, Schema.spelled_literal h⟩
    unfold TypeTree.literal
    split
    next he => exact he ▸ scanned_empty
    next => exact scanned_atom (piecewise_balanced.literal h)
  empty := ⟨scanned_empty, TypeText.spelled_empty⟩
  withNull h n := h.withNull n
  arrayOf h := ⟨h.toScanned.arrayOf, h.spelled.arrayOf⟩
  dictionary h := ⟨h.toScanned.dictionary, h.spelled.dictionary⟩
  union hne h := ⟨scanned_union hne (h.imp fun _ _ hw => hw.toScanned),
    TypeText.spelled_union hne (h.imp fun _ _ hw => hw.spelled)⟩
  compose mode _ _ h := ⟨scanned_compose mode (h.imp fun _ _ hw => hw.toScanned),
    TypeText.spelled_compose mode (h.imp fun _ _ hw => hw.spelled)⟩
  braced hne h := by
    refine ⟨scanned_braced (h.imp ?_), TypeText.spelled_braced hne (h.imp ?_)⟩
    · rintro t m ⟨type, htype, rfl⟩
      exact ⟨type, htype.toScanned, rfl⟩
    · rintro t m ⟨type, htype, rfl⟩
      exact ⟨type, htype.spelled, rfl⟩

/-- A text is read as a type whose words are those of the text. -/
theorem Worded.read (h : Worded t δ) : ∃ τ, TypeText.read t = some τ ∧ TypeTree.Same τ δ ∧
    ∀ n, n ∈ identifiers t ↔ n ∈ τ.names ∨ n ∈ τ.keyWords ∨ n ∈ τ.literalWords := by
  obtain ⟨τ, hτ, hsame⟩ := h.spelled.read
  refine ⟨τ, hτ, hsame, fun n => ?_⟩
  rw [h.words, ← hsame.mem_words, TypeTree.mem_words_iff]

end Client

end TypedClients
