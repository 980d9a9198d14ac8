import TypedClients.Proofs.Schema.References
import TypedClients.Proofs.TypeText.Meaning
import TypedClients.Proofs.TypeText.Tokens

/-!
# The names in a type

A type mentions other types by identifiers. Flattening a type or repeating null in it changes
none of them, so the names in the type that a text is read as are those of the type it stands
for: names that the writer itself uses, constants among the literal values of a schema, and
the names of references.

* `Same.mem_names`: the same types have the same names in them.
* `Schema.mem_names_denote`: where the names of a schema's type come from.
* `Schema.read_names`: so do the names in its text.
-/

namespace TypedClients

namespace TypeTree

mutual

/-- The identifiers that stand for types. A dictionary names its own type and that of its keys. -/
def names : TypeTree → List String
  | atom text => if Naming.isIdentifier text.toList then [text] else []
  | array item => item.names
  | record value => "Record" :: "string" :: value.names
  | object members => namesOfMembers members
  | union a b => a.names ++ b.names
  | inter a b => a.names ++ b.names

/-- The identifiers that stand for types of members. -/
def namesOfMembers : List (String × Bool × TypeTree) → List String
  | [] => []
  | (_, _, t) :: rest => t.names ++ namesOfMembers rest

end

variable {n : String}

theorem mem_names_atom {text : String} :
    n ∈ (atom text).names ↔ n = text ∧ Naming.isIdentifier text.toList = true := by
  rw [names]
  split
  next h => rw [List.mem_singleton, and_iff_left h]
  next h => exact ⟨fun hn => absurd hn List.not_mem_nil, fun hn => absurd hn.2 h⟩

/-- The identifiers of a token that stand for types. -/
def Token.names : Token → List String
  | atom text => if Naming.isIdentifier text.toList then [text] else []
  | record => ["Record", "string"]
  | key _ => []

mutual

/-- The names of a type are those of its tokens. -/
theorem mem_names_iff : ∀ t : TypeTree, n ∈ t.names ↔ ∃ k, k ∈ t.tokens ∧ n ∈ k.names
  | atom text => by
    rw [names, tokens]
    simp only [List.mem_singleton, exists_eq_left, Token.names]
  | array item => mem_names_iff item
  | record value => by
    rw [names, tokens, List.mem_cons, List.mem_cons, mem_names_iff value]
    simp only [List.mem_cons, exists_eq_or_imp, Token.names, List.not_mem_nil, or_false, or_assoc]
  | object members => mem_namesOfMembers_iff members
  | union a b => by
    rw [names, tokens, List.mem_append, mem_names_iff a, mem_names_iff b]
    simp only [List.mem_append, or_and_right, exists_or]
  | inter a b => by
    rw [names, tokens, List.mem_append, mem_names_iff a, mem_names_iff b]
    simp only [List.mem_append, or_and_right, exists_or]

theorem mem_namesOfMembers_iff : ∀ ms : List (String × Bool × TypeTree),
    n ∈ namesOfMembers ms ↔ ∃ k, k ∈ tokensOfMembers ms ∧ n ∈ k.names
  | [] => by simp [namesOfMembers, tokensOfMembers]
  | (name, _, t) :: rest => by
    have hkey : ¬n ∈ (Token.key name).names := List.not_mem_nil
    rw [namesOfMembers, tokensOfMembers, List.mem_append, mem_names_iff t,
      mem_namesOfMembers_iff rest]
    simp only [List.mem_cons, List.mem_append, or_and_right, exists_or, exists_eq_left, hkey,
      false_or]

end

theorem mem_names_unionOf {l : List TypeTree} (h : l ≠ []) :
    n ∈ (unionOf l).names ↔ ∃ t, t ∈ l ∧ n ∈ t.names := by
  simp only [mem_names_iff, mem_tokens_unionOf h]
  constructor
  · rintro ⟨k, ⟨t, ht, hk⟩, hn⟩
    exact ⟨t, ht, k, hk, hn⟩
  · rintro ⟨t, ht, k, hk, hn⟩
    exact ⟨k, ⟨t, ht, hk⟩, hn⟩

theorem mem_names_interOf {l : List TypeTree} (h : l ≠ []) :
    n ∈ (interOf l).names ↔ ∃ t, t ∈ l ∧ n ∈ t.names := by
  simp only [mem_names_iff, mem_tokens_interOf h]
  constructor
  · rintro ⟨k, ⟨t, ht, hk⟩, hn⟩
    exact ⟨t, ht, k, hk, hn⟩
  · rintro ⟨t, ht, k, hk, hn⟩
    exact ⟨k, ⟨t, ht, hk⟩, hn⟩

theorem Same.mem_names {s t : TypeTree} (h : Same s t) : n ∈ s.names ↔ n ∈ t.names := by
  simp only [mem_names_iff, h.mem_tokens]

theorem mem_names_orNull {nullable : Bool} {t : TypeTree} (h : n ∈ (t.orNull nullable).names) :
    n = "null" ∨ n ∈ t.names := by
  cases nullable with
  | false => exact Or.inr h
  | true =>
    rw [orNull, if_pos rfl, names, List.mem_append] at h
    exact h.symm.imp_left fun h => (mem_names_atom.1 h).1

end TypeTree

/-! ## Literal values -/

namespace TypeText

/-- The identifiers among the constants of literal values. -/
def constantNames : List String := ["null", "true", "false", "NaN", "Infinity"]

theorem isIdentifier_eq_false_of_head {s : List Char} {c : Char} (h : s.head? = some c)
    (hc : Naming.isIdentifierStart c = false) : Naming.isIdentifier s = false := by
  cases s with
  | nil => cases h
  | cons d rest =>
    obtain rfl : d = c := Option.some.inj h
    rw [Naming.isIdentifier, hc, Bool.false_and]

theorem isIdentifier_eq_false_of_mem {s : List Char} {c : Char} (h : c ∈ s)
    (hc : Naming.isIdentifierPart c = false) : Naming.isIdentifier s = false := by
  rw [Bool.eq_false_iff]
  intro hs
  exact Bool.false_ne_true (hc.symm.trans (Naming.isIdentifierPart_of_mem hs h))

theorem isIdentifierStart_digitChar (n : Nat) :
    Naming.isIdentifierStart (Number.digitChar n) = false := by
  have hall : ∀ k, k < 10 → Naming.isIdentifierStart (Number.digitChar k) = false := by decide
  have hmod : Number.digitChar n = Number.digitChar (n % 10) := by
    rw [Number.digitChar, Number.digitChar, Nat.mod_mod]
  rw [hmod]
  exact hall _ (Nat.mod_lt n (by decide))

theorem isIdentifier_intText (i : Int) : Naming.isIdentifier (Number.intText i).toList = false := by
  cases i with
  | ofNat n =>
    rw [Number.intText, Number.natText, String.toList_ofList]
    obtain ⟨c, rest, hs⟩ := List.exists_cons_of_ne_nil (Naming.digits_ne_nil n)
    have hc : c ∈ Number.digits n := hs ▸ List.mem_cons_self
    obtain ⟨k, rfl⟩ := Number.digits_eq_digit hc
    exact isIdentifier_eq_false_of_head (congrArg List.head? hs) (isIdentifierStart_digitChar k)
  | negSucc n =>
    refine isIdentifier_eq_false_of_mem (c := '-') ?_ rfl
    rw [Number.intText, String.toList_append]
    exact List.mem_append_left _ List.mem_cons_self

/-- A decimal has a point or the sign of an exponent in it. -/
theorem isIdentifier_layOut {style : Number.FloatStyle} (s : Number.Scaled) {sign : List Char} :
    Naming.isIdentifier (sign ++ style.layOut s) = false := by
  have hmark : ∃ c, c ∈ style.layOut s ∧ Naming.isIdentifierPart c = false := by
    unfold Number.FloatStyle.layOut
    simp only
    split
    · refine ⟨'.', ?_, rfl⟩
      split
      · exact List.mem_append_right _ List.mem_cons_self
      · exact List.mem_cons_of_mem _ List.mem_cons_self
    · refine ⟨_, List.mem_append_right _ (List.mem_cons_of_mem _ List.mem_cons_self), ?_⟩
      split
      · rfl
      · rfl
  obtain ⟨c, hc, hpart⟩ := hmark
  exact isIdentifier_eq_false_of_mem (List.mem_append_right _ hc) hpart

/-- The text of a double is an identifier only if the double is no finite number. -/
theorem mem_constantNames_floatText {x : Float}
    (h : Naming.isIdentifier (Json.floatText x).toList = true) :
    Json.floatText x ∈ constantNames := by
  revert h
  rw [Json.floatText, String.toList_ofList]
  generalize Number.FloatValue.ofFloat x = value
  cases value with
  | nan => exact fun _ => by decide
  | infinite negative =>
    cases negative with
    | true => exact fun h => absurd h (by decide)
    | false => exact fun _ => by decide
  | finite negative m e =>
    intro h
    have hnone : Naming.isIdentifier (Json.floatStyle.text (.finite negative m e)) = false := by
      rw [Number.FloatStyle.text]
      by_cases hm : (m == 0) = true
      · rw [if_pos hm]
        exact isIdentifier_eq_false_of_mem (c := '.') (List.mem_append_right _ (by decide)) rfl
      · rw [if_neg hm]
        exact isIdentifier_layOut _
    rw [hnone] at h
    cases h

/-- A text that begins with a character that no identifier begins with is none. -/
theorem mem_constantNames_of_head {text : String} {c : Char} (htext : text.toList.head? = some c)
    (hc : Naming.isIdentifierStart c = false) (h : Naming.isIdentifier text.toList = true) :
    text ∈ constantNames := by
  rw [isIdentifier_eq_false_of_head htext hc] at h
  cases h

/-- A value as JSON is an identifier only if it is a constant. -/
theorem mem_constantNames_of_form {text : String} (h : Json.Form text)
    (hidentifier : Naming.isIdentifier text.toList = true) : text ∈ constantNames := by
  have hopen : ∀ (s t : String) (c : Char), s.toList = [c] → (s ++ t).toList.head? = some c := by
    intro s t c hs
    rw [String.toList_append, hs]
    rfl
  cases h with
  | constant h => exact List.mem_append_left ["NaN", "Infinity"] h
  | int i =>
    rw [isIdentifier_intText] at hidentifier
    cases hidentifier
  | float x => exact mem_constantNames_floatText hidentifier
  | string s =>
    obtain ⟨t, -, ht⟩ := escaped_stringText s
    exact mem_constantNames_of_head (congrArg List.head? ht) rfl hidentifier
  | list _ =>
    rw [String.append_assoc] at hidentifier ⊢
    exact mem_constantNames_of_head (hopen "[" _ '[' rfl) rfl hidentifier
  | map _ =>
    rw [String.append_assoc] at hidentifier ⊢
    exact mem_constantNames_of_head (hopen "\x7b" _ '\x7b' rfl) rfl hidentifier

end TypeText

/-! ## Schemas -/

namespace Schema

open TypeText (constantNames)

variable {names : Ordered String} {n : String}

/-- The names that are written whatever a document says. -/
def builtinNames : List String :=
  ["string", "number", "boolean", "null", "File", "unknown", "any", "Record", "true", "false"]

/-- A name that stands in the text of a schema: one of the writer's own, a constant of a
literal value, or that of a reference. -/
def Written (names : Ordered String) (references : List String) (n : String) : Prop :=
  n ∈ builtinNames ∨ n ∈ constantNames ∨ ∃ ref, ref ∈ references ∧ n = referenceName names ref

theorem Written.mono {refs refs' : List String} (h : Written names refs n)
    (hsub : ∀ ref, ref ∈ refs → ref ∈ refs') : Written names refs' n :=
  h.imp_right (Or.imp_right fun ⟨ref, hmem, hn⟩ => ⟨ref, hsub ref hmem, hn⟩)

theorem written_orNull {refs : List String} {nullable : Bool} {t : TypeTree}
    (h : n ∈ (t.orNull nullable).names) (ht : n ∈ t.names → Written names refs n) :
    Written names refs n := by
  rcases TypeTree.mem_names_orNull h with rfl | h
  · exact Or.inl (by decide)
  · exact ht h

theorem mem_names_literalType {v : Value} {δ : TypeTree} (h : literalType v = .ok δ)
    (hn : n ∈ δ.names) : n ∈ constantNames := by
  unfold literalType at h
  split at h
  next s =>
    cases h
    obtain ⟨rfl, hidentifier⟩ := TypeTree.mem_names_atom.1 hn
    rw [String.append_assoc, String.toList_append] at hidentifier
    cases hidentifier
  next =>
    split at h
    next =>
      cases h
      exact absurd hn List.not_mem_nil
    next text ht =>
      cases h
      obtain ⟨rfl, hidentifier⟩ := TypeTree.mem_names_atom.1 hn
      exact TypeText.mem_constantNames_of_form (Json.form_compact _ _ ht) hidentifier
    next => cases h

theorem mem_names_literalTypes {vs : List Value} {δs : List TypeTree}
    (h : vs.mapM literalType = .ok δs) {δ : TypeTree} (hδ : δ ∈ δs) (hn : n ∈ δ.names) :
    n ∈ constantNames := by
  induction vs generalizing δs with
  | nil =>
    cases h
    exact absurd hδ List.not_mem_nil
  | cons v vs ih =>
    rw [List.mapM_cons] at h
    obtain ⟨a, ha, h⟩ := bind_eq_ok.1 h
    obtain ⟨as, has, he⟩ := bind_eq_ok.1 h
    cases he
    rcases List.mem_cons.1 hδ with rfl | hδ
    · exact mem_names_literalType ha hn
    · exact ih has hδ

theorem mem_names_composed {mode : Composition} {δs : List TypeTree}
    (h : n ∈ (TypeTree.composed mode δs).names) :
    n ∈ builtinNames ∨ ∃ δ, δ ∈ δs ∧ n ∈ δ.names := by
  cases δs with
  | nil =>
    obtain ⟨rfl, -⟩ := TypeTree.mem_names_atom.1 h
    exact Or.inl (by decide)
  | cons δ δs =>
    refine Or.inr ?_
    cases mode with
    | allOf => exact (TypeTree.mem_names_interOf (List.cons_ne_nil _ _)).1 h
    | oneOf => exact (TypeTree.mem_names_unionOf (List.cons_ne_nil _ _)).1 h
    | anyOf => exact (TypeTree.mem_names_unionOf (List.cons_ne_nil _ _)).1 h

theorem mem_builtinNames_scalarName (type : Option String) : scalarName type ∈ builtinNames := by
  unfold scalarName
  split
  next e hfind =>
    have hall : ∀ e, e ∈ scalarNames → e.2 ∈ builtinNames := by decide
    exact hall _ (List.mem_of_find?_eq_some hfind)
  next => decide

mutual

/-- The names in the type that a schema stands for. -/
theorem mem_names_denote (s : Schema) : ∀ δ, s.denote names = .ok δ → n ∈ δ.names →
    Written names s.references n := by
  have hscalar : ∀ {type : Option String} {nullable : Bool} {refs : List String},
      n ∈ (TypeTree.orNull nullable (scalarType type)).names → Written names refs n := by
    intro type nullable refs hn
    rw [scalarType_eq] at hn
    refine written_orNull hn fun hn => ?_
    obtain ⟨rfl, -⟩ := TypeTree.mem_names_atom.1 hn
    exact Or.inl (mem_builtinNames_scalarName type)
  intro δ h hn
  match s with
  | primitive type format none nullable =>
    rw [denote] at h
    cases h
    exact hscalar hn
  | primitive type format (some []) nullable =>
    rw [denote] at h
    cases h
    exact hscalar hn
  | primitive type format (some (v :: vs)) nullable =>
    rw [denote] at h
    · obtain ⟨δs, hδs, he⟩ := bind_eq_ok.1 h
      cases he
      refine written_orNull hn fun hn => Or.inr (Or.inl ?_)
      have hne : δs ≠ [] := by
        rintro rfl
        rw [List.mapM_cons] at hδs
        obtain ⟨_, -, hδs⟩ := bind_eq_ok.1 hδs
        obtain ⟨_, -, he⟩ := bind_eq_ok.1 hδs
        cases he
      obtain ⟨ε, hε, hn⟩ := (TypeTree.mem_names_unionOf hne).1 hn
      exact mem_names_literalTypes hδs hε hn
    · exact List.cons_ne_nil v vs
  | array items nullable =>
    rw [denote] at h
    obtain ⟨ε, hε, he⟩ := bind_eq_ok.1 h
    cases he
    exact written_orNull hn (mem_names_denote items ε hε)
  | object properties required additional nullable =>
    rw [denote] at h
    obtain ⟨ms, hms, he⟩ := bind_eq_ok.1 h
    cases he
    exact written_orNull hn (mem_names_denoteProperties required properties ms hms)
  | dictionary required none nullable =>
    rw [denote] at h
    cases h
    refine written_orNull hn fun hn => Or.inl ?_
    have hall : ∀ n, n ∈ (TypeTree.record (.atom "unknown")).names → n ∈ builtinNames := by
      decide
    exact hall n hn
  | dictionary required (some s) nullable =>
    rw [denote] at h
    obtain ⟨ε, hε, he⟩ := bind_eq_ok.1 h
    cases he
    refine written_orNull hn fun hn => ?_
    rw [TypeTree.names, List.mem_cons, List.mem_cons] at hn
    rcases hn with rfl | rfl | hn
    · exact Or.inl (by decide)
    · exact Or.inl (by decide)
    · exact mem_names_denote s ε hε hn
  | composite mode members nullable =>
    rw [denote] at h
    obtain ⟨δs, hδs, he⟩ := bind_eq_ok.1 h
    cases he
    refine written_orNull hn fun hn => ?_
    rcases mem_names_composed hn with hn | ⟨ε, hε, hn⟩
    · exact Or.inl hn
    · exact mem_names_denoteMembers members δs hδs ε hε hn
  | reference ref nullable =>
    rw [denote] at h
    cases h
    rw [referenceType_eq] at hn
    refine written_orNull hn fun hn => Or.inr (Or.inr ⟨ref, List.mem_singleton.2 rfl, ?_⟩)
    exact (TypeTree.mem_names_atom.1 hn).1

theorem mem_names_denoteMembers (ms : List Schema) : ∀ δs, denoteMembers names ms = .ok δs →
    ∀ δ, δ ∈ δs → n ∈ δ.names → Written names (referencesOfMembers ms) n := by
  intro δs h δ hδ hn
  match ms with
  | [] =>
    rw [denoteMembers] at h
    cases h
    exact absurd hδ List.not_mem_nil
  | m :: ms =>
    rw [denoteMembers] at h
    obtain ⟨ε, hε, h⟩ := bind_eq_ok.1 h
    obtain ⟨εs, hεs, he⟩ := bind_eq_ok.1 h
    cases he
    rw [referencesOfMembers]
    rcases List.mem_cons.1 hδ with rfl | hδ
    · exact (mem_names_denote m _ hε hn).mono fun _ => List.mem_append_left _
    · exact (mem_names_denoteMembers ms εs hεs δ hδ hn).mono fun _ => List.mem_append_right _

theorem mem_names_denoteProperties (required : List String) (ps : List (String × Schema)) :
    ∀ ms, denoteProperties names required ps = .ok ms → n ∈ TypeTree.namesOfMembers ms →
      Written names (referencesOfProperties ps) n := by
  intro ms h hn
  match ps with
  | [] =>
    rw [denoteProperties] at h
    cases h
    exact absurd hn List.not_mem_nil
  | (name, p) :: ps =>
    rw [denoteProperties] at h
    obtain ⟨ε, hε, h⟩ := bind_eq_ok.1 h
    obtain ⟨εs, hεs, he⟩ := bind_eq_ok.1 h
    cases he
    rw [TypeTree.namesOfMembers, List.mem_append] at hn
    rw [referencesOfProperties]
    rcases hn with hn | hn
    · exact (mem_names_denote p ε hε hn).mono fun _ => List.mem_append_left _
    · exact (mem_names_denoteProperties required ps εs hεs hn).mono fun _ => List.mem_append_right _

end

/-- A table in which identifiers are found is as good as one with identifiers only. -/
theorem exists_identifiers
    (h : ∀ n x, names.get? n = some x → Naming.isIdentifier x.toList = true) :
    ∃ names' : Ordered String, (∀ e, e ∈ names' → Naming.isIdentifier e.2.toList = true) ∧
      ∀ n, names.get? n = names'.get? n := by
  refine ⟨names.filter fun e => Naming.isIdentifier e.2.toList,
    fun e he => (List.mem_filter.1 he).2, fun n => ?_⟩
  have hn := h n
  rw [Ordered.get?, Ordered.get?, List.find?_filter]
  simp only [Bool.decide_and, Bool.decide_eq_true]
  rw [Ordered.get?] at hn
  cases hf : names.find? (·.1 = n) with
  | none =>
    rw [List.find?_eq_none] at hf
    have hnone :
        names.find? (fun e => Naming.isIdentifier e.2.toList && decide (e.1 = n)) = none := by
      refine List.find?_eq_none.2 fun e he hboth => hf e he ?_
      exact (Bool.and_eq_true_iff.1 hboth).2
    rw [hnone]
  | some e =>
    rw [hf] at hn
    obtain ⟨hkey, before, after, hsplit, hbefore⟩ := List.find?_eq_some_iff_append.1 hf
    have hsome : names.find? (fun e => Naming.isIdentifier e.2.toList && decide (e.1 = n)) =
        some e := by
      refine List.find?_eq_some_iff_append.2 ⟨?_, before, after, hsplit, fun a ha => ?_⟩
      · rw [hn e.2 rfl, hkey]
        rfl
      · have hother := hbefore a ha
        rw [Bool.not_eq_true'] at hother ⊢
        rw [hother, Bool.and_false]
    rw [hsome]

/-- The text of a schema belongs to a type in which each name is one that is written. -/
theorem Compositional.exists_written {P : String → TypeTree → Prop} (hP : Compositional P)
    (h : ∀ n x, names.get? n = some x → Naming.isIdentifier x.toList = true) {s : Schema}
    {text : String} (htext : s.render names = .ok text) :
    ∃ δ, P text δ ∧ ∀ n, n ∈ δ.names → Written names s.references n := by
  obtain ⟨names', hnames', hsame⟩ := exists_identifiers h
  rw [s.render_congr_get? hsame] at htext
  obtain ⟨δ, hδ, htype⟩ := hP.of_render hnames' s text htext
  refine ⟨δ, htype, fun n hn => (mem_names_denote s δ hδ hn).imp_right (Or.imp_right ?_)⟩
  rintro ⟨ref, href, rfl⟩
  exact ⟨ref, href, by rw [referenceName, referenceName, hsame]⟩

/-- The text of a schema is read as a type, and each name in this type is one that is written. -/
theorem read_names (h : ∀ n x, names.get? n = some x → Naming.isIdentifier x.toList = true)
    {s : Schema} {text : String} (htext : s.render names = .ok text) :
    ∃ τ, TypeText.read text = some τ ∧ ∀ n, n ∈ τ.names → Written names s.references n := by
  obtain ⟨δ, hspelled, hwritten⟩ := compositional_spelled.exists_written h htext
  obtain ⟨τ, hτ, hread⟩ := hspelled.read
  exact ⟨τ, hτ, fun n hn => hwritten n (hread.mem_names.1 hn)⟩

end Schema

end TypedClients
