import TypedClients.Proofs.Script.Literal

/-!
# Texts in single quotes

A text is put in single quotes with a backslash ahead of every backslash and every quote in
it, and nothing else is escaped. So it is read back as it was, unless it has a line break,
which no such literal goes across.

* `read?_quoted`, `read?_quoted_eq_none`: a text in single quotes is read back unless it has a
  line break.
* `opening?_quoted_eq_some`: a literal in single quotes gives the units of the text, and
  nothing is behind it.
-/

namespace TypedClients.Script

open Naming (quotedChar singleQuoted)

theorem next?_quotedChar {c : Char} (hc : c ≠ '\n' ∧ c ≠ '\r') (rest : List Char) :
    quoted.next? (quotedChar c ++ rest) = some ((units c).map .unit, rest) := by
  unfold quotedChar
  split
  next h =>
    rcases h with rfl | rfl
    · rfl
    · rfl
  next h =>
    rw [not_or] at h
    show quotedNext? (c :: rest) = _
    rw [quotedNext?, if_neg h.1, if_neg (not_or.2 hc)]

theorem head?_quotedChar (c : Char) (rest : List Char) :
    (quotedChar c ++ rest).head? ≠ some quoted.quote := by
  unfold quotedChar
  split
  next =>
    intro h
    exact absurd (Option.some.inj h) (by decide)
  next h =>
    rw [not_or] at h
    exact fun heq => h.2 (Option.some.inj heq)

/-- A text in single quotes is read back unless it has a line break. -/
theorem read?_quoted {s : List Char} (hs : '\n' ∉ s ∧ '\r' ∉ s) :
    quoted.read? (s.flatMap quotedChar ++ ['\x27']) =
      some ((s.flatMap units).map .unit, []) := by
  induction s with
  | nil => exact quoted.read?_quote []
  | cons c rest ih =>
    have hc : c ≠ '\n' ∧ c ≠ '\r' :=
      ⟨fun h => hs.1 (h ▸ List.mem_cons_self), fun h => hs.2 (h ▸ List.mem_cons_self)⟩
    have hrest : '\n' ∉ rest ∧ '\r' ∉ rest :=
      ⟨fun h => hs.1 (List.mem_cons_of_mem _ h), fun h => hs.2 (List.mem_cons_of_mem _ h)⟩
    rw [List.flatMap_cons, List.append_assoc,
      Kind.read?_of_next? (head?_quotedChar c _) (next?_quotedChar hc _), ih hrest, Option.map_some,
      List.flatMap_cons, List.map_append]

/-- A text with a line break is no literal in single quotes. -/
theorem read?_quoted_eq_none {s : List Char} (hs : '\n' ∈ s ∨ '\r' ∈ s) :
    quoted.read? (s.flatMap quotedChar ++ ['\x27']) = none := by
  induction s with
  | nil =>
    rcases hs with hs | hs
    · cases hs
    · cases hs
  | cons c rest ih =>
    rw [List.flatMap_cons, List.append_assoc]
    by_cases hc : c ≠ '\n' ∧ c ≠ '\r'
    · have hrest : '\n' ∈ rest ∨ '\r' ∈ rest :=
        hs.imp (List.mem_of_ne_of_mem (Ne.symm hc.1)) (List.mem_of_ne_of_mem (Ne.symm hc.2))
      rw [Kind.read?_of_next? (head?_quotedChar c _) (next?_quotedChar hc _), ih hrest,
        Option.map_none]
    · have hbreak : c = '\n' ∨ c = '\r' := by
        rw [not_and_or, not_not, not_not] at hc
        exact hc
      refine Kind.read?_eq_none (head?_quotedChar c _) ?_
      rcases hbreak with rfl | rfl
      · rfl
      · rfl

/-! ## Literals -/

theorem literal?_eq_some {s : List Char} {parts : List Part} :
    literal? s = some parts ↔ opening? s = some (parts, []) := by
  unfold literal?
  split
  next ps heq => rw [heq, Option.some.injEq, Option.some.injEq, Prod.mk.injEq, and_iff_left rfl]
  next hne =>
    constructor
    · intro h
      cases h
    · exact fun h => absurd h (hne parts)

theorem opening?_quoted (s : String) :
    opening? (singleQuoted s).toList =
      quoted.read? (s.toList.flatMap quotedChar ++ ['\x27']) := by
  rw [singleQuoted, String.toList_ofList, opening?, List.cons_append, List.head?_cons,
    if_pos rfl, List.tail_cons]

/-- A literal in single quotes gives units only, and nothing is behind it. -/
theorem opening?_quoted_eq_some {s : String} {parts : List Part} {rest : List Char}
    (h : opening? (singleQuoted s).toList = some (parts, rest)) :
    parts = (s.toList.flatMap units).map .unit ∧ rest = [] := by
  rw [opening?_quoted] at h
  by_cases hplain : '\n' ∉ s.toList ∧ '\r' ∉ s.toList
  · rw [read?_quoted hplain] at h
    cases h
    exact ⟨rfl, rfl⟩
  · rw [read?_quoted_eq_none (by rwa [not_and_or, not_not, not_not] at hplain)] at h
    cases h

end TypedClients.Script
