import TypedClients.Naming.Path
import TypedClients.Operation.Basic
import TypedClients.Proofs.Naming.Candidates

/-!
# Generated names are identifiers

The names of operations and of their types are a method's word followed by words in Pascal
case, so they are identifiers; a number behind an identifier leaves it one.

* `forall_isAlphanumeric`: what holds of 128 characters holds of letters and digits.
* `isIdentifier_candidate`: numbered identifiers are identifiers.
* `exists_operationName`, `exists_typeName`: behind the word of its method, the name of an
  operation consists of letters and digits (`Plain`), and so do those of its types.
-/

namespace TypedClients.Naming

/-! ## Letters and digits -/

/-- A text of ASCII letters and digits. -/
def Plain (s : List Char) : Prop := ∀ c, c ∈ s → isAlphanumeric c = true

theorem Plain.append {s t : List Char} (hs : Plain s) (ht : Plain t) : Plain (s ++ t) :=
  fun c hc => (List.mem_append.1 hc).elim (hs c) (ht c)

theorem plain_pascalChars (s : List Char) : Plain (pascalChars s) := fun _ hc => mem_pascalChars hc

theorem plain_pascal (s : String) : Plain (pascal s).toList := by
  rw [pascal, String.toList_ofList]
  exact plain_pascalChars s.toList

theorem toNat_lt_of_isAlphanumeric {c : Char} (h : isAlphanumeric c = true) : c.toNat < 0x80 := by
  have h9 : ('9' : Char).toNat = 57 := rfl
  have hz : ('z' : Char).toNat = 122 := rfl
  have hZ : ('Z' : Char).toNat = 90 := rfl
  simp only [isAlphanumeric, Text.isAsciiLetter, Text.isAsciiDigit, Bool.or_eq_true,
    Bool.and_eq_true, decide_eq_true_eq, h9, hz, hZ] at h
  omega

/-- What holds of the letters and digits in ASCII order holds of each of them. -/
theorem forall_isAlphanumeric {P : Char → Prop}
    (h : ∀ n : Fin 128, isAlphanumeric (Char.ofNat n) = true → P (Char.ofNat n)) {c : Char}
    (hc : isAlphanumeric c = true) : P c := by
  have hP := h ⟨c.toNat, toNat_lt_of_isAlphanumeric hc⟩
  rw [Char.ofNat_toNat] at hP
  exact hP hc

theorem isAlphanumeric_lowerAscii {c : Char} (h : isAlphanumeric c = true) :
    isAlphanumeric (Text.lowerAscii c) = true :=
  forall_isAlphanumeric (P := fun c => isAlphanumeric (Text.lowerAscii c) = true) (by decide) h

/-- A name in camel case holds ASCII letters and digits only. -/
theorem isAlphanumeric_of_mem_camel {s : String} {c : Char} (h : c ∈ (camel s).toList) :
    isAlphanumeric c = true := by
  rw [camel, String.toList_ofList] at h
  cases hs : pascalChars s.toList with
  | nil =>
    rw [hs] at h
    cases h
  | cons d rest =>
    have hall : ∀ e, e ∈ d :: rest → isAlphanumeric e = true :=
      fun e he => mem_pascalChars (hs ▸ he)
    rw [hs, lowerFirst] at h
    rcases List.mem_cons.1 h with rfl | h
    · exact isAlphanumeric_lowerAscii (hall d List.mem_cons_self)
    · exact hall c (List.mem_cons_of_mem _ h)

/-- A cleaned identifier brings in nothing but an underscore. -/
theorem mem_identifierChars {s : List Char} {c : Char} (h : c ∈ identifierChars s) :
    c = '_' ∨ c ∈ s := by
  unfold identifierChars at h
  split at h
  next => exact Or.inl (List.mem_singleton.1 h)
  next d rest heq =>
    have hmem : c ∈ d :: rest → c ∈ s := fun hc => List.mem_of_mem_filter (heq ▸ hc)
    split at h
    next =>
      rcases List.mem_cons.1 h with h | h
      · exact Or.inl h
      · exact Or.inr (hmem h)
    next => exact Or.inr (hmem h)

/-! ## Numbered names -/

theorem isAsciiDigit_digitChar (n : Nat) : Text.isAsciiDigit (Number.digitChar n) = true := by
  have h0 : ('0' : Char).toNat = 48 := rfl
  have h9 : ('9' : Char).toNat = 57 := rfl
  rw [Text.isAsciiDigit, Number.digitChar_toNat, h0, h9, Bool.and_eq_true, decide_eq_true_eq,
    decide_eq_true_eq]
  omega

theorem isIdentifierPart_digitChar (n : Nat) : isIdentifierPart (Number.digitChar n) = true := by
  rw [isIdentifierPart, isAlphanumeric, isAsciiDigit_digitChar, Bool.or_true]
  rfl

/-- What may stand inside an identifier may stand behind one. -/
theorem isIdentifier_append {s t : List Char} (hs : isIdentifier s = true)
    (ht : ∀ c, c ∈ t → isIdentifierPart c = true) : isIdentifier (s ++ t) = true := by
  cases s with
  | nil => cases hs
  | cons c rest =>
    rw [isIdentifier, Bool.and_eq_true] at hs
    rw [List.cons_append, isIdentifier, List.all_append, hs.1, hs.2, List.all_eq_true.2 ht]
    rfl

theorem isIdentifier_candidate {name : String} (h : isIdentifier name.toList = true) (n : Nat) :
    isIdentifier (candidate name n).toList = true := by
  cases n with
  | zero => exact h
  | succ n =>
    rw [candidate, String.toList_append, Number.natText, String.toList_ofList]
    refine isIdentifier_append h fun c hc => ?_
    obtain ⟨k, rfl⟩ := Number.digits_eq_digit hc
    exact isIdentifierPart_digitChar k

/-! ## Names of operations -/

theorem mem_foldInto {names : List String} {s : String} (h : s ∈ foldInto names) : s ∈ names := by
  fun_induction foldInto names with
  | case1 => exact h
  | case2 => exact h
  | case3 _ _ _ _ ih => exact List.mem_cons_of_mem _ (ih h)
  | case4 _ _ _ _ ih =>
    rcases List.mem_cons.1 h with rfl | h
    · exact List.mem_cons_self
    · exact List.mem_cons_of_mem _ (ih h)

theorem mem_lastNames {window : Int} {names : List String} {s : String}
    (h : s ∈ lastNames window names) : s ∈ names := by
  unfold lastNames at h
  split at h
  · exact h
  · exact List.mem_of_mem_drop h
  · exact List.mem_of_mem_drop h

theorem plain_resource (path : String) (versions : List String) (window : Int) :
    Plain (resource path versions window).toList := by
  unfold resource
  simp only
  split
  · exact List.all_eq_true.1 (by decide)
  · intro c hc
    obtain ⟨s, hs, hc⟩ := List.mem_flatMap.1 (String.toList_join ▸ hc)
    obtain ⟨segment, -, rfl⟩ := List.mem_map.1 (mem_foldInto (mem_lastNames hs))
    exact plain_pascal segment c hc

theorem plain_placeholderSuffix (path : String) : Plain (placeholderSuffix path).toList := by
  have hby : Plain ("By" : String).toList := List.all_eq_true.1 (by decide)
  intro c hc
  obtain ⟨s, hs, hc⟩ := List.mem_flatMap.1 (String.toList_join ▸ hc)
  obtain ⟨p, -, rfl⟩ := List.mem_map.1 hs
  rw [String.toList_append] at hc
  exact hby.append (plain_pascal p) c hc

section Operations

variable {m : Method} {method : String} (h : Text.lowerString method = m.word) (path : String)
  (versions : List String) (window : Int)

include h

/-- Behind the word of its method, the name of an operation consists of letters and digits. -/
theorem exists_operationName :
    ∃ rest, operationName method path versions window = m.word ++ rest ∧ Plain rest.toList := by
  refine ⟨resource path versions window ++ placeholderSuffix path, ?_, ?_⟩
  · rw [operationName, h, String.append_assoc]
  · rw [String.toList_append]
    exact (plain_resource path versions window).append (plain_placeholderSuffix path)

/-- So do the names of its types. -/
theorem exists_typeName {direction : String} (hdirection : Plain direction.toList) :
    ∃ rest, operationName method path versions window ++ direction = m.word ++ rest ∧
      Plain rest.toList := by
  obtain ⟨rest, hname, hrest⟩ := exists_operationName h path versions window
  refine ⟨rest ++ direction, ?_, ?_⟩
  · rw [hname, String.append_assoc]
  · rw [String.toList_append]
    exact hrest.append hdirection

theorem exists_requestName :
    ∃ rest, requestName method path versions window = m.word ++ rest ∧ Plain rest.toList :=
  exists_typeName h path versions window (List.all_eq_true.1 (by decide))

theorem exists_responseName :
    ∃ rest, responseName method path versions window = m.word ++ rest ∧ Plain rest.toList :=
  exists_typeName h path versions window (List.all_eq_true.1 (by decide))

end Operations

theorem lowerString_word (m : Method) : Text.lowerString m.word = m.word := by
  cases m <;> decide +kernel

theorem isIdentifier_word (m : Method) : isIdentifier m.word.toList = true := by
  cases m <;> decide

/-- The word of a method with letters and digits behind it is an identifier. -/
theorem isIdentifier_behind_word {m : Method} {name : String}
    (h : ∃ rest, name = m.word ++ rest ∧ Plain rest.toList) : isIdentifier name.toList = true := by
  obtain ⟨rest, rfl, hrest⟩ := h
  rw [String.toList_append]
  exact isIdentifier_append (isIdentifier_word m) fun c hc =>
    isIdentifierPart_of_isAlphanumeric (hrest c hc)

theorem isIdentifier_requestName (m : Method) (path : String) (versions : List String)
    (window : Int) : isIdentifier (requestName m.word path versions window).toList = true :=
  isIdentifier_behind_word (exists_requestName (lowerString_word m) path versions window)

theorem isIdentifier_responseName (m : Method) (path : String) (versions : List String)
    (window : Int) : isIdentifier (responseName m.word path versions window).toList = true :=
  isIdentifier_behind_word (exists_responseName (lowerString_word m) path versions window)

end TypedClients.Naming
