import TypedClients.Client.Reference
import TypedClients.Proofs.TypeText.Literals

/-!
# Quoted parts of written types

The scan for the names in a text drops quoted parts first. A text is `Balanced` if its quoted
parts are closed, so that what stands behind it is scanned on its own.

Whatever types are written with is made of signs and of quoted parts with everything escaped
in them: words, keys in quotes, and literal values with all the strings in them. So a property
of texts holds of it if it is *piecewise*: if it holds of these pieces and is kept when texts
are put together. Being balanced is one such property.

* `unquoted_quoted`: a quoted part is dropped, whatever is escaped in it.
* `Piecewise.singleQuoted`, `Piecewise.stringText`: names in quotes and JSON strings.
* `Piecewise.form`: literal values.
* `Piecewise.propertyKey`, `Piecewise.member`: the members of an object type.
* `piecewise_balanced`: being balanced is piecewise.
-/

namespace TypedClients.Client

open Naming (quotedChar)
open TypeText (Escaped escaped_quotedChar escaped_stringChar isQuote isWordPart
  isWordPart_floatText isWordPart_hexText isWordPart_intText ne_of_isWordPart)

/-! ## Quoted parts -/

/-- What is skipped inside quotes. -/
def Skipped (quote : Char) (t : List Char) : Prop :=
  ∀ rest, afterQuote? quote (t ++ rest) = afterQuote? quote rest

theorem Skipped.append {quote : Char} {t u : List Char} (ht : Skipped quote t)
    (hu : Skipped quote u) : Skipped quote (t ++ u) := by
  intro rest
  rw [List.append_assoc, ht, hu]

theorem Skipped.flatMap {quote : Char} {f : Char → List Char} (hf : ∀ c, Skipped quote (f c))
    (t : List Char) : Skipped quote (t.flatMap f) := by
  induction t with
  | nil => exact fun _ => rfl
  | cons c t ih =>
    rw [List.flatMap_cons]
    exact (hf c).append ih

theorem skipped_char {quote c : Char} (hq : c ≠ quote) (hb : c ≠ '\\') : Skipped quote [c] := by
  intro rest
  rw [List.singleton_append, afterQuote?]
  · rw [if_neg hq, if_neg hb]
  · rintro d tail rfl
    exact absurd rfl hb

theorem skipped_pair {quote c : Char} (h : c ≠ '\n') : Skipped quote ['\\', c] := by
  intro rest
  rw [List.cons_append, List.singleton_append, afterQuote?, if_neg h]

theorem skipped_of_forall {quote : Char} {t : List Char} (h : ∀ c, c ∈ t → c ≠ quote ∧ c ≠ '\\') :
    Skipped quote t := by
  induction t with
  | nil => exact fun _ => rfl
  | cons c t ih =>
    obtain ⟨hq, hb⟩ := h c List.mem_cons_self
    exact (skipped_char hq hb).append (ih fun d hd => h d (List.mem_cons_of_mem _ hd))

theorem skipped_quotedChar (c : Char) : Skipped '\x27' (quotedChar c) := by
  unfold quotedChar
  split
  next h =>
    rcases h with rfl | rfl
    · exact skipped_pair (by decide)
    · exact skipped_pair (by decide)
  next h =>
    obtain ⟨hback, hquote⟩ := not_or.1 h
    exact skipped_char hquote hback

theorem skipped_unit (n : Nat) : Skipped '\x22' ('\\' :: 'u' :: Text.hexText 4 n) := by
  have hhex : Skipped '\x22' (Text.hexText 4 n) := skipped_of_forall fun _ hc =>
    ⟨ne_of_isWordPart (isWordPart_hexText hc) rfl, ne_of_isWordPart (isWordPart_hexText hc) rfl⟩
  exact (skipped_pair (c := 'u') (by decide)).append hhex

theorem skipped_unitEscape (c : Char) : Skipped '\x22' (Json.unitEscape c) := by
  unfold Json.unitEscape
  simp only
  split
  · exact skipped_unit _
  · exact (skipped_unit _).append (skipped_unit _)

theorem skipped_stringChar (c : Char) : Skipped '\x22' (Json.stringChar true c) := by
  unfold Json.stringChar
  split
  next h =>
    rcases h with rfl | rfl
    · exact skipped_pair (by decide)
    · exact skipped_pair (by decide)
  next h =>
    obtain ⟨hquote, hback⟩ := not_or.1 h
    iterate 5
      split
      next => exact skipped_pair (by decide)
    split
    next => exact skipped_unitEscape c
    split
    next => exact skipped_unitEscape c
    next => exact skipped_char hquote hback

/-! ## Balanced texts -/

/-- The quoted parts of a text are closed: what stands behind it is scanned on its own. -/
def Balanced (t : List Char) : Prop := ∀ rest, unquoted (t ++ rest) = unquoted t ++ unquoted rest

/-- A text without quotes. -/
def Plain (t : List Char) : Prop := ∀ c, c ∈ t → c ≠ '\x27' ∧ c ≠ '\x22'

instance (t : List Char) : Decidable (Plain t) := List.decidableBAll _ t

theorem Plain.unquoted_append {t : List Char} (h : Plain t) (rest : List Char) :
    unquoted (t ++ rest) = t ++ unquoted rest := by
  induction t with
  | nil => rfl
  | cons c t ih =>
    have hc : ¬(c = '\x27' ∨ c = '\x22') := not_or.2 (h c List.mem_cons_self)
    rw [List.cons_append, unquoted, if_neg hc, ih fun d hd => h d (List.mem_cons_of_mem _ hd),
      List.cons_append]

theorem Plain.unquoted_eq {t : List Char} (h : Plain t) : unquoted t = t := by
  have happend := h.unquoted_append []
  rw [List.append_nil, unquoted, List.append_nil] at happend
  exact happend

theorem Plain.balanced {t : List Char} (h : Plain t) : Balanced t := by
  intro rest
  rw [h.unquoted_append, h.unquoted_eq]

theorem Balanced.append {t u : List Char} (ht : Balanced t) (hu : Balanced u) :
    Balanced (t ++ u) := by
  intro rest
  rw [List.append_assoc, ht, hu, ht, List.append_assoc]

/-- A quoted part is dropped. -/
theorem unquoted_quoted {quote : Char} (hq : quote = '\x27' ∨ quote = '\x22') {t : List Char}
    (h : Skipped quote t) (rest : List Char) :
    unquoted (quote :: t ++ [quote] ++ rest) = unquoted rest := by
  have hafter : afterQuote? quote (t ++ [quote] ++ rest) = some rest := by
    rw [List.append_assoc, h, List.singleton_append]
    rcases hq with rfl | rfl
    · rw [afterQuote?, if_pos rfl]
      rintro d tail heq
      exact absurd heq (by decide)
    · rw [afterQuote?, if_pos rfl]
      rintro d tail heq
      exact absurd heq (by decide)
  rw [List.cons_append, List.cons_append, unquoted, if_pos hq]
  split
  next after heq =>
    rw [hafter] at heq
    rw [Option.some.inj heq]
  next heq =>
    rw [hafter] at heq
    cases heq

theorem balanced_quoted {quote : Char} (hq : quote = '\x27' ∨ quote = '\x22') {t : List Char}
    (h : Skipped quote t) : Balanced (quote :: t ++ [quote]) ∧ unquoted
    (quote :: t ++ [quote]) = [] := by
  have hnil : unquoted (quote :: t ++ [quote]) = [] := by
    have hall := unquoted_quoted hq h []
    rwa [List.append_nil, unquoted] at hall
  refine ⟨fun rest => ?_, hnil⟩
  rw [unquoted_quoted hq h, hnil, List.nil_append]

theorem balanced_singleQuoted (s : String) :
    Balanced (Naming.singleQuoted s).toList ∧ unquoted (Naming.singleQuoted s).toList = [] := by
  rw [Naming.singleQuoted, String.toList_ofList]
  exact balanced_quoted (Or.inl rfl) (Skipped.flatMap skipped_quotedChar s.toList)

/-- A word has no quotes. -/
theorem plain_of_isWordPart {t : List Char} (h : ∀ c, c ∈ t → isWordPart c = true) : Plain t :=
  fun c hc => ⟨ne_of_isWordPart (h c hc) rfl, ne_of_isWordPart (h c hc) rfl⟩

/-! ## Texts piece by piece -/

/-- A property of texts that holds of every character but quotes and of quoted parts, and is
kept when texts are put together. -/
structure Piecewise (P : List Char → Prop) : Prop where
  nil : P []
  char : ∀ {c : Char}, isQuote c = false → P [c]
  quoted : ∀ {quote : Char} {t : List Char}, isQuote quote = true → Escaped quote t →
    Skipped quote t →
    P (quote :: t ++ [quote])
  append : ∀ {t u : List Char}, P t → P u → P (t ++ u)

theorem piecewise_balanced : Piecewise Balanced where
  nil := Plain.balanced fun _ hc => absurd hc List.not_mem_nil
  char {c} h := by
    rw [isQuote, Bool.or_eq_false_iff, decide_eq_false_iff_not, decide_eq_false_iff_not] at h
    exact Plain.balanced fun d hd => List.mem_singleton.1 hd ▸ h
  quoted hq _ h := by
    rw [isQuote, Bool.or_eq_true, decide_eq_true_eq, decide_eq_true_eq] at hq
    exact (balanced_quoted hq h).1
  append := Balanced.append

namespace Piecewise

variable {P : List Char → Prop}

theorem plain (hP : Piecewise P) {t : List Char} (h : Plain t) : P t := by
  induction t with
  | nil => exact hP.nil
  | cons c t ih =>
    obtain ⟨hsingle, hdouble⟩ := h c List.mem_cons_self
    have hc : isQuote c = false := by
      rw [isQuote, decide_eq_false hsingle, decide_eq_false hdouble, Bool.or_false]
    exact hP.append (hP.char hc) (ih fun d hd => h d (List.mem_cons_of_mem _ hd))

theorem word (hP : Piecewise P) {text : String} (h : ∀ c, c ∈ text.toList → isWordPart c = true) :
    P text.toList := hP.plain (plain_of_isWordPart h)

theorem joinStrings (hP : Piecewise P) {sep : String} (hsep : P sep.toList) {ts : List String}
    (h : ∀ t, t ∈ ts → P t.toList) : P (Text.joinStrings sep ts).toList := by
  induction ts using Text.joinStrings.induct with
  | case1 => exact hP.nil
  | case2 t => exact h t List.mem_cons_self
  | case3 t u rest ih =>
    rw [Text.joinStrings, String.toList_append, String.toList_append]
    exact hP.append (hP.append (h t List.mem_cons_self) hsep)
      (ih fun v hv => h v (List.mem_cons_of_mem _ hv))

/-- A text between two brackets. -/
theorem between (hP : Piecewise P) {o c t : String} (ho : Plain o.toList) (hc : Plain c.toList)
    (h : P t.toList) : P (o ++ t ++ c).toList := by
  rw [String.toList_append, String.toList_append]
  exact hP.append (hP.append (hP.plain ho) h) (hP.plain hc)

theorem singleQuoted (hP : Piecewise P) (s : String) : P (Naming.singleQuoted s).toList := by
  rw [Naming.singleQuoted, String.toList_ofList]
  exact hP.quoted rfl (escaped_quotedChar s.toList) (Skipped.flatMap skipped_quotedChar s.toList)

theorem stringText (hP : Piecewise P) (s : String) : P (Json.stringText true s).toList := by
  rw [Json.stringText, String.toList_ofList]
  exact hP.quoted rfl (Escaped.flatMap escaped_stringChar s.toList)
    (Skipped.flatMap skipped_stringChar s.toList)

/-- A piecewise property holds of whatever a value is written as. -/
theorem form (hP : Piecewise P) {text : String} (h : Json.Form text) : P text.toList := by
  have hcomma : P ", ".toList := hP.plain (by decide)
  induction h with
  | constant h =>
    have hplain : ∀ w, w ∈ ["null", "true", "false"] → Plain w.toList := by decide
    exact hP.plain (hplain _ h)
  | int i => exact hP.word fun _ hc => isWordPart_intText hc
  | float x => exact hP.word (isWordPart_floatText x).2
  | string s => exact hP.stringText s
  | list _ ih => exact hP.between (by decide) (by decide) (hP.joinStrings hcomma ih)
  | map _ ih =>
    refine hP.between (by decide) (by decide) (hP.joinStrings hcomma fun t ht => ?_)
    obtain ⟨m, hm, rfl⟩ := List.mem_map.1 ht
    rw [Json.member, String.toList_append, String.toList_append]
    exact hP.append (hP.append (hP.stringText m.1) (hP.plain (by decide))) (ih m hm)

/-- A piecewise property holds of every literal. -/
theorem literal (hP : Piecewise P) {v : Value} {text : String} (h : Schema.literal v = .ok text) :
    P text.toList := by
  unfold Schema.literal at h
  split at h
  next s =>
    cases h
    exact hP.singleQuoted s
  next =>
    split at h
    next t ht =>
      cases h
      exact hP.form (Json.form_compact _ _ ht)
    next => cases h

/-! ### Written types -/

theorem operand (hP : Piecewise P) {t : String} (h : P t.toList) :
    P (TypeText.operand t).toList := by
  unfold TypeText.operand
  split
  · exact hP.between (by decide) (by decide) h
  · exact h

theorem arrayOf (hP : Piecewise P) {t : String} (h : P t.toList) :
    P (TypeText.arrayOf t).toList := by
  unfold TypeText.arrayOf
  split
  · exact hP.between (by decide) (by decide) h
  · rw [String.toList_append]
    exact hP.append h (hP.plain (by decide))

theorem dictionary (hP : Piecewise P) {t : String} (h : P t.toList) :
    P ("Record<string, " ++ t ++ ">").toList := hP.between (by decide) (by decide) h

theorem withNull (hP : Piecewise P) {t : String} (h : P t.toList) (n : Bool) :
    P (TypeText.withNull n t).toList := by
  unfold TypeText.withNull
  split
  · exact h
  · rw [String.toList_append]
    exact hP.append h (hP.plain (by decide))

theorem propertyKey (hP : Piecewise P) (name : String) : P (Naming.propertyKey name).toList := by
  unfold Naming.propertyKey
  split
  next h =>
    refine hP.plain fun c hc => ?_
    rcases (TypeText.parts_of_isBareKey h).2 c hc with hword | rfl
    · exact ⟨ne_of_isWordPart hword rfl, ne_of_isWordPart hword rfl⟩
    · exact ⟨by decide, by decide⟩
  next => exact hP.singleQuoted name

theorem member (hP : Piecewise P) {key type : String} (hkey : P key.toList) (htype : P type.toList)
    (required : Bool) : P (TypeText.member key required type).toList := by
  have hcolon : P ": ".toList := hP.plain (by decide)
  have hmark : P (if required then "" else "?").toList := by
    cases required with
    | true => exact hP.plain (by decide)
    | false => exact hP.plain (by decide)
  rw [TypeText.member, String.toList_append, String.toList_append, String.toList_append]
  exact hP.append (hP.append (hP.append hkey hmark) hcolon) htype

end Piecewise

end TypedClients.Client
