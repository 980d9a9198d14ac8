import TypedClients.Proofs.Naming.Identifiers
import TypedClients.Proofs.TypeText.Spelling
import TypedClients.Proofs.Value.Forms

/-!
# Literals as they are read

A value written as JSON is a word, a string or a collection, so that it is read as one atom
(an empty object as the object type without members) and read over inside another collection.

* `isWordPart_floatText`: numbers are words.
* `escaped_stringChar`: strings are escaped.
* `isLiteral_of_form`: every value that has a JSON form is written as a literal.
-/

namespace TypedClients.TypeText

open Json (stringChar unitEscape)
open Text (hexDigit hexText joinWith joinStrings toList_joinStrings)

/-! ## Numbers -/

theorem isWordPart_digits {n : Nat} {c : Char} (h : c ∈ Number.digits n) : isWordPart c = true := by
  obtain ⟨k, rfl⟩ := Number.digits_eq_digit h
  exact isWordPart_of_isIdentifierPart (Naming.isIdentifierPart_digitChar k)

theorem isWordPart_intText {i : Int} {c : Char} (h : c ∈ (Number.intText i).toList) :
    isWordPart c = true := by
  cases i with
  | ofNat n =>
    rw [Number.intText, Number.natText, String.toList_ofList] at h
    exact isWordPart_digits h
  | negSucc n =>
    rw [Number.intText, Number.natText, String.toList_append, List.mem_append] at h
    rcases h with h | h
    · obtain rfl : c = '-' := by simpa using h
      rfl
    · rw [String.toList_ofList] at h
      exact isWordPart_digits h

theorem intText_ne_nil (i : Int) : (Number.intText i).toList ≠ [] := by
  cases i with
  | ofNat n =>
    rw [Number.intText, Number.natText, String.toList_ofList]
    exact Naming.digits_ne_nil n
  | negSucc n =>
    rw [Number.intText, String.toList_append]
    exact fun h => absurd (List.append_eq_nil_iff.1 h).1 (by decide)

theorem isWordPart_layOut {style : Number.FloatStyle} {s : Number.Scaled} {c : Char}
    (h : c ∈ style.layOut s) : isWordPart c = true := by
  -- only digits are cut and padded; the rest are a point, a sign and the letter e
  have hdigit : ∀ d, d ∈ ((Number.digits s.digits).reverse.dropWhile (· == '0')).reverse →
      isWordPart d = true := by
    intro d hd
    have hmem := (List.dropWhile_sublist _).mem (List.mem_reverse.1 hd)
    exact isWordPart_digits (List.mem_reverse.1 hmem)
  have hzero : ∀ k d, d ∈ List.replicate k '0' → isWordPart d = true := by
    intro k d hd
    rw [List.eq_of_mem_replicate hd]
    rfl
  unfold Number.FloatStyle.layOut at h
  simp only at h
  split at h
  · split at h
    · rw [List.mem_append, List.mem_append, List.mem_cons] at h
      rcases h with (h | h) | rfl | h
      · exact hdigit c (List.mem_of_mem_take h)
      · exact hzero _ c h
      · rfl
      · split at h
        · obtain rfl := List.mem_singleton.1 h
          rfl
        · exact hdigit c (List.mem_of_mem_drop h)
    · rw [List.mem_cons, List.mem_cons, List.mem_append] at h
      rcases h with rfl | rfl | h | h
      · rfl
      · rfl
      · exact hzero _ c h
      · exact hdigit c h
  · rw [List.mem_append, List.mem_append, List.mem_cons, List.mem_cons, List.mem_append] at h
    rcases h with (h | h) | rfl | rfl | h | h
    · exact hdigit c (List.mem_of_mem_take h)
    · split at h
      · exact absurd h List.not_mem_nil
      · rcases List.mem_cons.1 h with rfl | h
        · rfl
        · exact hdigit c (List.mem_of_mem_drop h)
    · rfl
    · split
      · rfl
      · rfl
    · exact hzero _ c h
    · exact isWordPart_digits h

theorem layOut_ne_nil (style : Number.FloatStyle) (s : Number.Scaled) : style.layOut s ≠ [] := by
  unfold Number.FloatStyle.layOut
  simp only
  split
  · split
    · exact fun h => List.cons_ne_nil _ _ (List.append_eq_nil_iff.1 h).2
    · exact List.cons_ne_nil _ _
  · exact fun h => List.cons_ne_nil _ _ (List.append_eq_nil_iff.1 h).2

/-- The text of a double is a word. -/
theorem isWordPart_floatText (x : Float) : (Json.floatText x).toList ≠ [] ∧
    ∀ c, c ∈ (Json.floatText x).toList → isWordPart c = true := by
  have hsign : ∀ negative : Bool, ∀ c, c ∈ (if negative then ['-'] else []) →
    isWordPart c = true := by
    intro negative
    cases negative with
    | true => exact List.all_eq_true.1 (by decide)
    | false => exact List.all_eq_true.1 (by decide)
  rw [Json.floatText, String.toList_ofList]
  generalize Number.FloatValue.ofFloat x = value
  cases value with
  | nan => exact ⟨by decide, List.all_eq_true.1 (by decide)⟩
  | infinite negative =>
    cases negative with
    | true => exact ⟨by decide, List.all_eq_true.1 (by decide)⟩
    | false => exact ⟨by decide, List.all_eq_true.1 (by decide)⟩
  | finite negative m e =>
    rw [Number.FloatStyle.text]
    have hdigits : (if m == 0 then ['0', '.', '0']
        else Json.floatStyle.layOut (Number.shortest m e)) ≠ [] ∧
        ∀ c, c ∈ (if m == 0 then ['0', '.', '0']
          else Json.floatStyle.layOut (Number.shortest m e)) → isWordPart c = true := by
      split
      · exact ⟨List.cons_ne_nil _ _, List.all_eq_true.1 (by decide)⟩
      · exact ⟨layOut_ne_nil _ _, fun c hc => isWordPart_layOut hc⟩
    refine ⟨fun h => hdigits.1 (List.append_eq_nil_iff.1 h).2, fun c hc => ?_⟩
    exact (List.mem_append.1 hc).elim (hsign negative c) (hdigits.2 c)

/-! ## Strings -/

theorem isWordPart_hexText {width n : Nat} {c : Char} (h : c ∈ hexText width n) :
    isWordPart c = true := by
  have hdigit : ∀ k, k < 16 → isWordPart (hexDigit k) = true := by decide
  induction width generalizing n with
  | zero => exact absurd h List.not_mem_nil
  | succ width ih =>
    rw [hexText, List.mem_append, List.mem_singleton] at h
    rcases h with h | rfl
    · exact ih h
    · exact hdigit _ (Nat.mod_lt n (by decide))

theorem escaped_unit (n : Nat) : Escaped '\x22' ('\\' :: 'u' :: hexText 4 n) :=
  .pair (.of_forall fun _ hc =>
    ⟨ne_of_isWordPart (isWordPart_hexText hc) rfl, ne_of_isWordPart (isWordPart_hexText hc) rfl⟩)

theorem escaped_unitEscape (c : Char) : Escaped '\x22' (unitEscape c) := by
  unfold unitEscape
  simp only
  split
  · exact escaped_unit _
  · exact (escaped_unit _).append (escaped_unit _)

theorem escaped_stringChar (c : Char) : Escaped '\x22' (stringChar true c) := by
  have hpair : ∀ d, Escaped '\x22' ['\\', d] := fun _ => .pair .nil
  unfold stringChar
  split
  next => exact hpair c
  next h =>
    obtain ⟨hquote, hback⟩ := not_or.1 h
    iterate 5
      split
      next => exact hpair _
    split
    next => exact escaped_unitEscape c
    split
    next => exact escaped_unitEscape c
    next => exact .char hquote hback .nil

theorem escaped_stringText (s : String) : ∃ t, Escaped '\x22' t ∧
    (Json.stringText true s).toList = '\x22' :: t ++ ['\x22'] :=
  ⟨_, Escaped.flatMap escaped_stringChar s.toList, String.toList_ofList⟩

/-! ## Values -/

/-- A text that is read as a literal, on its own and inside a JSON collection. -/
structure IsLiteral (text : String) : Prop where
  inert : Inert text.toList
  atomic : Atomic text.toList (TypeTree.literal text)

/-- A text that begins with another character than a brace is no empty object. -/
theorem literal_of_head {text : String} {c : Char} {s : List Char} (htext : text.toList = c :: s)
    (h : (c :: s) ≠ ['\x7b', '\x7d']) : TypeTree.literal text = .atom (String.ofList (c :: s)) := by
  rw [TypeTree.literal, if_neg, ← htext, String.ofList_toList]
  rintro rfl
  exact h htext.symm

theorem isLiteral_word {text : String} (hne : text.toList ≠ [])
    (h : ∀ c, c ∈ text.toList → isWordPart c = true) : IsLiteral text := by
  obtain ⟨c, s, hs⟩ := List.exists_cons_of_ne_nil hne
  have hc : isWordPart c = true := h c (hs ▸ List.mem_cons_self)
  refine ⟨inert_of_isInert fun d hd => isInert_of_isWordPart (h d hd), ?_⟩
  rw [literal_of_head hs fun e => ne_of_isWordPart hc rfl (List.cons.inj e).1, ← hs]
  exact atomic_word hne h

/-- A quoted literal is an atom. -/
theorem atomic_literal {text : String} {quote : Char} {t : List Char} (hq : isQuote quote = true)
    (h : Escaped quote t) (htext : text.toList = quote :: t ++ [quote]) :
    Atomic text.toList (TypeTree.literal text) := by
  rw [literal_of_head htext, htext]
  · exact atomic_quoted hq h
  · rintro e
    rw [(List.cons.inj e).1] at hq
    cases hq

theorem inert_stringText (s : String) : Inert (Json.stringText true s).toList := by
  obtain ⟨t, ht, htext⟩ := escaped_stringText s
  rw [htext]
  exact inert_string ht

theorem isLiteral_stringText (s : String) : IsLiteral (Json.stringText true s) := by
  obtain ⟨t, ht, htext⟩ := escaped_stringText s
  exact ⟨inert_stringText s, atomic_literal rfl ht htext⟩

theorem isLiteral_collection {text : String} {o c : Char} {t : List Char}
    (hpair : (o, c) ∈ jsonBrackets) (h : Inert t)
    (hhead : o = '[' ∨ t.head? = some '\x22') (htext : text.toList = o :: t ++ [c]) :
    IsLiteral text := by
  refine ⟨htext ▸ inert_bracketed hpair h, ?_⟩
  rw [literal_of_head htext, htext]
  · exact atomic_collection hpair h hhead
  · intro e
    obtain ⟨rfl, ht⟩ := List.cons.inj e
    rcases hhead with hhead | hhead
    · exact absurd hhead (by decide)
    · cases t with
      | nil => cases hhead
      | cons d t =>
        obtain rfl : d = '\x22' := Option.some.inj hhead
        exact absurd (List.cons.inj ht).1 (by decide)

theorem isLiteral_empty : IsLiteral "\x7b\x7d" := by
  have hpair : ('\x7b', '\x7d') ∈ jsonBrackets := by decide
  have hnil : Inert [] := inert_of_isInert fun c hc => absurd hc List.not_mem_nil
  have htext : ("\x7b\x7d" : String).toList = ['\x7b', '\x7d'] := by decide
  refine ⟨htext ▸ inert_bracketed hpair hnil, ?_⟩
  rw [htext, TypeTree.literal, if_pos rfl]
  exact atomic_empty

theorem inert_joinWith {sep : List Char} (hsep : Inert sep) {ts : List (List Char)}
    (h : ∀ t, t ∈ ts → Inert t) : Inert (joinWith sep ts) := by
  induction ts using Text.joinWith.induct with
  | case1 => exact inert_of_isInert fun c hc => absurd hc List.not_mem_nil
  | case2 t => exact h t List.mem_cons_self
  | case3 t u rest ih =>
    rw [joinWith]
    exact ((h t List.mem_cons_self).append hsep).append
      (ih fun v hv => h v (List.mem_cons_of_mem _ hv))

theorem inert_items {ts : List String} (h : ∀ t, t ∈ ts → Inert t.toList) :
    Inert (joinStrings ", " ts).toList := by
  rw [toList_joinStrings]
  refine inert_joinWith (inert_of_isInert (List.all_eq_true.1 (by decide))) fun s hs => ?_
  obtain ⟨t, ht, rfl⟩ := List.mem_map.1 hs
  exact h t ht

theorem isLiteral_list {ts : List String} (h : ∀ t, t ∈ ts → Inert t.toList) :
    IsLiteral ("[" ++ joinStrings ", " ts ++ "]") :=
  isLiteral_collection (List.mem_cons_self : ('[', ']') ∈ _) (inert_items h) (Or.inl rfl) (by simp)

/-- Members of a JSON object begin with the quote of their key. -/
theorem isLiteral_map {ts : List String}
    (h : ∀ t, t ∈ ts → Inert t.toList ∧ t.toList.head? = some '\x22') :
    IsLiteral ("\x7b" ++ joinStrings ", " ts ++ "\x7d") := by
  cases ts with
  | nil => exact isLiteral_empty
  -- with a member, the quote of its key tells the object from an object type
  | cons t ts =>
    have hinert := inert_items fun s hs => (h s hs).1
    have hhead : (joinStrings ", " (t :: ts)).toList.head? = some '\x22' := by
      cases ts with
      | nil => exact (h t List.mem_cons_self).2
      | cons u ts =>
        rw [joinStrings, String.toList_append, String.toList_append, List.append_assoc,
          List.head?_append, (h t List.mem_cons_self).2]
        rfl
    have hpair : ('\x7b', '\x7d') ∈ jsonBrackets := by decide
    exact isLiteral_collection hpair hinert (Or.inr hhead) (by simp)

/-- A member of a JSON object begins with the quote of its key. -/
theorem inert_member {m : String × String} (h : Inert m.2.toList) :
    Inert (Json.member m).toList ∧ (Json.member m).toList.head? = some '\x22' := by
  obtain ⟨t, ht, htext⟩ := escaped_stringText m.1
  have hcolon : Inert (": " : String).toList := inert_of_isInert (List.all_eq_true.1 (by decide))
  rw [Json.member, String.toList_append, String.toList_append]
  refine ⟨((inert_stringText m.1).append hcolon).append h, ?_⟩
  rw [htext]
  rfl

theorem isWordPart_constant {text : String} (h : text ∈ ["null", "true", "false"]) :
    text.toList ≠ [] ∧ ∀ c, c ∈ text.toList → isWordPart c = true := by
  have hall : ∀ w, w ∈ ["null", "true", "false"] →
      w.toList ≠ [] ∧ w.toList.all isWordPart = true := by decide
  exact (hall text h).imp_right List.all_eq_true.1

/-- Whatever a value is written as is a literal. -/
theorem isLiteral_of_form {text : String} (h : Json.Form text) : IsLiteral text := by
  induction h with
  | constant h => exact isLiteral_word (isWordPart_constant h).1 (isWordPart_constant h).2
  | int i => exact isLiteral_word (intText_ne_nil i) fun _ hc => isWordPart_intText hc
  | float x => exact isLiteral_word (isWordPart_floatText x).1 (isWordPart_floatText x).2
  | string s => exact isLiteral_stringText s
  | list _ ih => exact isLiteral_list fun t ht => (ih t ht).inert
  | map _ ih =>
    refine isLiteral_map fun t ht => ?_
    obtain ⟨m, hm, rfl⟩ := List.mem_map.1 ht
    exact inert_member (ih m hm).inert

end TypedClients.TypeText
