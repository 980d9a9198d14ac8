import TypedClients.Proofs.Script.Quoted
import TypedClients.Proofs.TypeText.Keys
import TypedClients.TypeText.OfSchema

/-!
# Keys and literal types as tokens

The name of a property is written as a key, and a text among the values of a schema as a
literal type. Each is meant to be one token that stands for the name or the text, and it is
unless there is a line break in it: a line break in single quotes stays as it is, and a name
is left without quotes if it is an identifier with a line feed behind it.

* `gives_singleQuoted`, `keyOf_propertyKey`: what is written is one token for the text,
  exactly if the text stands on one line.
* `propertyKey_injective`: no two names are written alike.
* `key_and_literal_of_text`: all of this together.
-/

namespace TypedClients.Script

open Naming (isBareKey isIdentifier isIdentifierPart propertyKey quotedChar singleQuoted)

/-! ## Tokens -/

/-- Whether a character ends a line of a program. -/
def isLineTerminator (c : Char) : Bool := c = '\n' || c = '\r' || isLineSeparator c

/-- A text without a line break that single quotes do not go across. -/
def OneLine (s : String) : Prop := '\n' ∉ s.toList ∧ '\r' ∉ s.toList

instance (s : String) : Decidable (OneLine s) := inferInstanceAs (Decidable (_ ∧ _))

/-- A token in single quotes that gives a text. -/
def Gives (token text : String) : Prop :=
  ∃ inside, token.toList = '\x27' :: inside ∧
    quoted.read? inside = some ((text.toList.flatMap units).map .unit, [])

/-- A token that is a key for a name: the name itself, if it is an identifier, or one in
single quotes that gives it. -/
def KeyOf (token name : String) : Prop :=
  (isIdentifier token.toList = true ∧ token = name) ∨ Gives token name

theorem not_oneLine {s : String} (h : ¬OneLine s) : '\n' ∈ s.toList ∨ '\r' ∈ s.toList := by
  unfold OneLine at h
  rwa [not_and_or, not_not, not_not] at h

theorem toList_singleQuoted (s : String) :
    (singleQuoted s).toList = '\x27' :: (s.toList.flatMap quotedChar ++ ['\x27']) := by
  rw [singleQuoted, String.toList_ofList, List.cons_append]

/-- A text in single quotes is one token for it if it stands on one line, and no token for it
otherwise. -/
theorem gives_singleQuoted (s : String) : Gives (singleQuoted s) s ↔ OneLine s := by
  constructor
  · rintro ⟨inside, hinside, hread⟩
    rw [toList_singleQuoted] at hinside
    obtain rfl := (List.cons.inj hinside).2
    by_contra hbreak
    rw [read?_quoted_eq_none (not_oneLine hbreak)] at hread
    cases hread
  · intro h
    exact ⟨_, toList_singleQuoted s, read?_quoted h⟩

/-! ## Keys -/

/-- An identifier stands on one line. -/
theorem oneLine_of_isIdentifier {s : String} (h : isIdentifier s.toList = true) : OneLine s := by
  have hpart : ∀ c, isIdentifierPart c = false → c ∉ s.toList := by
    intro c hc hmem
    rw [Naming.isIdentifierPart_of_mem h hmem] at hc
    cases hc
  exact ⟨hpart '\n' (by decide), hpart '\r' (by decide)⟩

/-- A name without quotes is an identifier, or one with a line feed behind it. -/
theorem bareKey_cases {s : String} (h : isBareKey s.toList = true) :
    isIdentifier s.toList = true ∨
      ∃ name : String, isIdentifier name.toList = true ∧ s = name ++ "\n" := by
  rw [isBareKey, Bool.or_eq_true, Bool.and_eq_true, decide_eq_true_eq] at h
  rcases h with h | ⟨hlast, h⟩
  · exact Or.inl h
  · refine Or.inr ⟨String.ofList s.toList.dropLast, by rwa [String.toList_ofList], ?_⟩
    rw [← String.toList_inj, String.toList_append, String.toList_ofList]
    exact (List.dropLast_append_getLast? _ hlast).symm

/-- What has a line break in it is a key for nothing unless it is in single quotes. -/
theorem not_keyOf_bare {name : String} (h : isIdentifier name.toList = true) (text : String) :
    ¬KeyOf (name ++ "\n") text := by
  rintro (⟨hidentifier, -⟩ | ⟨inside, hinside, -⟩)
  · refine (oneLine_of_isIdentifier hidentifier).1 ?_
    rw [String.toList_append]
    exact List.mem_append_right _ List.mem_cons_self
  · cases hname : name.toList with
    | nil =>
      rw [hname] at h
      cases h
    | cons c rest =>
      -- an identifier does not begin with a quote
      rw [String.toList_append, hname, List.cons_append] at hinside
      rw [hname, (List.cons.inj hinside).1] at h
      cases h

/-- The key for a name is one token for it exactly if the name stands on one line. -/
theorem keyOf_propertyKey (s : String) : KeyOf (propertyKey s) s ↔ OneLine s := by
  unfold propertyKey
  split
  next hbare =>
    rcases bareKey_cases hbare with hidentifier | ⟨name, hname, rfl⟩
    · exact iff_of_true (Or.inl ⟨hidentifier, rfl⟩) (oneLine_of_isIdentifier hidentifier)
    · refine iff_of_false (not_keyOf_bare hname _) fun hline => hline.1 ?_
      rw [String.toList_append]
      exact List.mem_append_right _ List.mem_cons_self
  next =>
    rw [← gives_singleQuoted]
    refine ⟨?_, Or.inr⟩
    rintro (⟨hidentifier, -⟩ | hgives)
    · rw [toList_singleQuoted] at hidentifier
      cases hidentifier
    · exact hgives

/-! ## Names that are written alike -/

theorem singleQuoted_injective {s t : String} (h : singleQuoted s = singleQuoted t) : s = t := by
  have hlists := congrArg String.toList h
  rw [toList_singleQuoted, toList_singleQuoted] at hlists
  have hinside := List.append_cancel_right (List.cons.inj hlists).2
  have hunescaped := congrArg TypeText.unescaped hinside
  rw [TypeText.unescaped_quotedChar, TypeText.unescaped_quotedChar] at hunescaped
  exact String.toList_inj.1 hunescaped

/-- A name without quotes is not written like one in quotes. -/
theorem ne_singleQuoted {s : String} (h : isBareKey s.toList = true) (t : String) :
    s ≠ singleQuoted t := by
  rintro rfl
  obtain ⟨⟨c, rest, hs, hc⟩, -⟩ := TypeText.parts_of_isBareKey h
  rw [toList_singleQuoted] at hs
  rw [← (List.cons.inj hs).1] at hc
  cases hc

theorem propertyKey_injective {s t : String} (h : propertyKey s = propertyKey t) : s = t := by
  unfold propertyKey at h
  split at h
  next hs =>
    split at h
    next => exact h
    next => exact absurd h (ne_singleQuoted hs t)
  next =>
    split at h
    next ht => exact absurd h.symm (ne_singleQuoted ht s)
    next => exact singleQuoted_injective h

/-! ## Line ends -/

/-- Quoting neither adds nor removes the end of a line. -/
theorem mem_singleQuoted_iff {c : Char} (hc : isLineTerminator c = true) (s : String) :
    c ∈ (singleQuoted s).toList ↔ c ∈ s.toList := by
  have hquote : c ≠ '\x27' := by
    rintro rfl
    cases hc
  have hback : c ≠ '\\' := by
    rintro rfl
    cases hc
  have hmem : ∀ d, c ∈ quotedChar d ↔ d = c := by
    intro d
    unfold quotedChar
    split
    next h => simp [hback, eq_comm]
    next => simp [eq_comm]
  rw [toList_singleQuoted, List.mem_cons, List.mem_append, List.mem_singleton, List.mem_flatMap]
  simp [hquote, hmem]

/-- A text among the values of a schema is written in single quotes, and the name of a
property too unless it is an identifier, perhaps with a line feed behind it. Either is one
token that stands for the text exactly if the text stands on one line; line ends of any kind
are in the quotes exactly if they are in the text; and no two names are written alike. -/
theorem key_and_literal_of_text (s : String) :
    Schema.literal (.str s) = .ok (singleQuoted s) ∧
      (Gives (singleQuoted s) s ↔ OneLine s) ∧
      (propertyKey s = singleQuoted s ∨ propertyKey s = s ∧ (isIdentifier s.toList = true ∨
        ∃ name : String, isIdentifier name.toList = true ∧ s = name ++ "\n")) ∧
      (KeyOf (propertyKey s) s ↔ OneLine s) ∧
      (∀ c, isLineTerminator c = true → (c ∈ (singleQuoted s).toList ↔ c ∈ s.toList)) ∧
      ∀ t, propertyKey s = propertyKey t → s = t := by
  refine ⟨rfl, gives_singleQuoted s, ?_, keyOf_propertyKey s, fun c hc => mem_singleQuoted_iff hc s,
    fun t => propertyKey_injective⟩
  unfold propertyKey
  split
  next hbare => exact Or.inr ⟨rfl, bareKey_cases hbare⟩
  next => exact Or.inl rfl

/-- A text with a line feed in it is put in quotes as it is, and an identifier with a line
feed behind it is not put in quotes. -/
theorem key_and_literal_of_brokenLine :
    Schema.literal (.str "a\nb") = .ok "'a\nb'" ∧ ¬Gives "'a\nb'" "a\nb" ∧
      propertyKey "a\nb" = "'a\nb'" ∧ ¬KeyOf "'a\nb'" "a\nb" ∧
      propertyKey "id\n" = "id\n" ∧ ¬KeyOf "id\n" "id\n" := by
  have hquoted : singleQuoted "a\nb" = "'a\nb'" := by decide
  have hkey : propertyKey "a\nb" = "'a\nb'" := by decide
  have hbare : propertyKey "id\n" = "id\n" := by decide
  refine ⟨congrArg Except.ok hquoted, ?_, hkey, ?_, hbare, ?_⟩
  · rw [← hquoted, gives_singleQuoted]
    decide
  · rw [← hkey, keyOf_propertyKey]
    decide
  · exact @not_keyOf_bare "id" (by decide) "id\n"

end TypedClients.Script
