import TypedClients.Proofs.TypeText.Brackets

/-!
# Keys of members

A property is written under a bare key if its name is an identifier, or one followed by a line
feed, and under a quoted key otherwise. Either way the key is read as the name
(`keyed_propertyKey`).
-/

namespace TypedClients.TypeText

open Naming (isBareKey isIdentifier isIdentifierPart isIdentifierPart_of_mem propertyKey quotedChar
  singleQuoted)

theorem isWordPart_of_isIdentifierPart {c : Char} (h : isIdentifierPart c = true) :
    isWordPart c = true := by
  rw [isWordPart, h]
  rfl

theorem parts_of_isIdentifier {s : List Char} (h : isIdentifier s = true) :
    (∃ c rest, s = c :: rest ∧ isWordPart c = true) ∧ ∀ c, c ∈ s → isWordPart c = true := by
  have hparts : ∀ c, c ∈ s → isWordPart c = true :=
    fun _ hc => isWordPart_of_isIdentifierPart (isIdentifierPart_of_mem h hc)
  cases s with
  | nil => cases h
  | cons c rest => exact ⟨⟨c, rest, rfl, hparts c List.mem_cons_self⟩, hparts⟩

/-- What a key without quotes is made of. -/
theorem parts_of_isBareKey {s : List Char} (h : isBareKey s = true) :
    (∃ c rest, s = c :: rest ∧ isWordPart c = true) ∧
      ∀ c, c ∈ s → isWordPart c = true ∨ c = '\n' := by
  rw [isBareKey, Bool.or_eq_true, Bool.and_eq_true, decide_eq_true_eq] at h
  rcases h with h | ⟨hlast, h⟩
  · obtain ⟨hhead, hall⟩ := parts_of_isIdentifier h
    exact ⟨hhead, fun c hc => Or.inl (hall c hc)⟩
  · obtain ⟨⟨c, rest, hhead, hc⟩, hall⟩ := parts_of_isIdentifier h
    have hs : s = s.dropLast ++ ['\n'] := (List.dropLast_append_getLast? _ hlast).symm
    refine ⟨⟨c, rest ++ ['\n'], ?_, hc⟩, fun d hd => ?_⟩
    · rw [hs, hhead]
      rfl
    · rw [hs, List.mem_append, List.mem_singleton] at hd
      exact hd.imp_left (hall d)

theorem unescaped_quotedChar (s : List Char) : unescaped (s.flatMap quotedChar) = s := by
  induction s with
  | nil => rfl
  | cons c s ih =>
    rw [List.flatMap_cons, quotedChar]
    split
    next => exact congrArg (c :: ·) ih
    next h =>
      obtain ⟨hback, -⟩ := not_or.1 h
      rw [List.singleton_append, unescaped, ih]
      intro _ _ he
      exact absurd he hback

theorem escaped_quotedChar (s : List Char) : Escaped '\x27' (s.flatMap quotedChar) := by
  refine Escaped.flatMap (fun c => ?_) s
  rw [quotedChar]
  split
  next => exact .pair .nil
  next h => exact .char (not_or.1 h).2 (not_or.1 h).1 .nil

/-- A bare key is read up to the character behind it. -/
theorem keyed_of_isBareKey {name : String} (h : isBareKey name.toList = true) :
    Keyed name.toList name := by
  obtain ⟨⟨c, s, hs, hc⟩, hall⟩ := parts_of_isBareKey h
  have hblank := not_isBlank_of_isWordPart hc
  refine ⟨fun rest hrest => ?_, ?_, ⟨c, by rw [hs]; rfl, hblank, ne_of_isWordPart hc rfl⟩⟩
  · -- the key holds neither of the characters that end it
    have hinside : ∀ d, d ∈ name.toList → (d ≠ '?' && d ≠ ':') = true := by
      intro d hd
      rcases hall d hd with hd | rfl
      · simp [ne_of_isWordPart hd (d := '?') rfl, ne_of_isWordPart hd (d := ':') rfl]
      · rfl
    have hstop : rest.takeWhile (fun d => d ≠ '?' && d ≠ ':') = [] ∧
        rest.dropWhile (fun d => d ≠ '?' && d ≠ ':') = rest := by
      cases rest with
      | nil => exact ⟨rfl, rfl⟩
      | cons d rest =>
        rcases hrest with hd | hd
        · obtain rfl : d = '?' := Option.some.inj hd
          exact ⟨rfl, rfl⟩
        · obtain rfl : d = ':' := Option.some.inj hd
          exact ⟨rfl, rfl⟩
    have htrim : Text.trimStart (name.toList ++ rest) = c :: (s ++ rest) := by
      rw [hs, List.cons_append, trimStart_cons hblank]
    have hquote : ¬(c = '\x27' ∨ c = '\x22') :=
      not_or.2 ⟨ne_of_isWordPart hc rfl, ne_of_isWordPart hc rfl⟩
    rw [readKey, htrim]
    simp only [if_neg hquote]
    rw [← List.cons_append, ← hs, List.takeWhile_append_of_pos hinside,
      List.dropWhile_append_of_pos hinside, hstop.1, hstop.2, List.append_nil, String.ofList_toList]
  · refine even_of_isPlain fun d hd => ?_
    rcases hall d hd with hd | rfl
    · have hinert := isInert_of_isWordPart hd
      simp only [isInert, Bool.and_eq_true] at hinert
      exact hinert.1.1
    · rfl

/-- A quoted key is read up to its closing quote, and its escapes are undone. -/
theorem keyed_singleQuoted (name : String) : Keyed (singleQuoted name).toList name := by
  have hback : '\x27' ≠ '\\' := by decide
  have hescaped := escaped_quotedChar name.toList
  rw [singleQuoted, String.toList_ofList]
  refine ⟨fun rest _ => ?_, even_quoted rfl hescaped, ⟨'\x27', rfl, rfl, by decide⟩⟩
  have htrim : ∀ u, Text.trimStart ('\x27' :: u) = '\x27' :: u := fun u => rfl
  rw [readKey, List.cons_append, List.cons_append, List.append_assoc, htrim]
  simp only [true_or, if_true, List.singleton_append, readQuoted_append hback hescaped,
    Option.map_some, unescaped_quotedChar, String.ofList_toList]

/-- The key of a property is read as its name. -/
theorem keyed_propertyKey (name : String) : Keyed (propertyKey name).toList name := by
  unfold propertyKey
  split
  next h => exact keyed_of_isBareKey h
  next => exact keyed_singleQuoted name

end TypedClients.TypeText
