import TypedClients.Proofs.TypeText.Scans

/-!
# Splitting at the top level

A text is cut at the places where an operator stands at depth zero. The scan that looks for
them carries a quote, an escape and a depth along; at a cut it carries nothing, since an
operator that stands at depth zero is outside of quotes and brackets. So behind a cut the text
is scanned as if it began there, and each piece can be looked at on its own.

* `joinWith_splitFrom`: nothing but the operators is lost, whatever the text.
* `Scan.Closes.splitTopLevel_append_cons`: what stands before a cut and what stands behind it
  are split on their own.
* `Scan.Closes.pieces`: each piece of a text that closes what it opens does so too, and has no
  cut inside.
* `splits_at_top_level`: these facts for unions and intersections.
-/

namespace TypedClients.TypeText

open Text (joinWith joinWith_cons_cons joinWith_nil_cons)

variable {operator : Char} {s : Scan} {t u : List Char}

/-! ## Cuts -/

/-- Joining the pieces with the operator gives the text back. -/
theorem joinWith_splitFrom (operator : Char) (s : Scan) (t : List Char) :
    joinWith [operator] (splitFrom operator s t) = t := by
  induction t generalizing s with
  | nil => rfl
  | cons c t ih =>
    have hne := splitFrom_ne_nil operator (s.next c) t
    have hrest := ih (s.next c)
    rw [splitFrom]
    split
    next hcut => rw [joinWith_nil_cons _ hne, hrest, hcut.1, List.singleton_append]
    next =>
      obtain ⟨piece, pieces, hpieces⟩ := List.exists_cons_of_ne_nil hne
      rw [hpieces] at hrest ⊢
      rw [joinWith_cons_cons, hrest]

/-- A text without an operator at depth zero stays in one piece. -/
theorem splitFrom_of_not_mem (h : (operator, 0) ∉ scanFrom s t) : splitFrom operator s t = [t] := by
  induction t generalizing s with
  | nil => rfl
  | cons c t ih =>
    obtain ⟨hcut, hrest⟩ := not_or.1 (mt mem_scanFrom_cons.2 h)
    rw [splitFrom, if_neg hcut, ih hrest]

/-- What stands before an operator at depth zero and what stands behind it are split on their
own. -/
theorem splitFrom_append_cons (h : (s.after t).standing operator = some 0) :
    splitFrom operator s (t ++ operator :: u) =
      splitFrom operator s t ++ splitFrom operator ((s.after t).next operator) u := by
  induction t generalizing s with
  | nil =>
    have hcut : operator = operator ∧ s.standing operator = some 0 := ⟨rfl, h⟩
    rw [List.nil_append, splitFrom, splitFrom, if_pos hcut]
    rfl
  | cons c t ih =>
    have hrest := ih (s := s.next c) h
    rw [List.cons_append, splitFrom, splitFrom, hrest]
    split
    next => rfl
    next =>
      obtain ⟨piece, pieces, hpieces⟩ :=
        List.exists_cons_of_ne_nil (splitFrom_ne_nil operator (s.next c) t)
      rw [hpieces]
      rfl

/-- A text with no bar at its depth is not cut at bars. -/
theorem Unbarred.splitTopLevel_eq (h : Unbarred t) : splitTopLevel '|' t = [t] :=
  splitFrom_of_not_mem (h 0)

/-! ## Texts that close what they open -/

namespace Scan

/-- The text closes what it opens and what was open before it: it ends outside quotes at depth
zero, and the depth is nowhere below zero. -/
structure Closes (s : Scan) (t : List Char) : Prop where
  quote : (s.after t).quote = none
  depth : (s.after t).depth = 0
  nonneg : ∀ front, front <+: t → 0 ≤ (s.after front).depth

theorem closes_nil : s.Closes [] ↔ s.quote = none ∧ s.depth = 0 := by
  constructor
  · exact fun h => ⟨h.quote, h.depth⟩
  · rintro ⟨hquote, hdepth⟩
    refine ⟨hquote, hdepth, fun front hfront => ?_⟩
    rw [List.prefix_nil.1 hfront]
    exact Int.le_of_eq hdepth.symm

theorem closes_cons {c : Char} : s.Closes (c :: t) ↔ 0 ≤ s.depth ∧ (s.next c).Closes t := by
  constructor
  · intro h
    refine ⟨h.nonneg [] List.nil_prefix, h.quote, h.depth, fun front hfront => ?_⟩
    exact h.nonneg (c :: front) ((List.prefix_cons_inj c).2 hfront)
  · rintro ⟨hdepth, h⟩
    refine ⟨h.quote, h.depth, fun front hfront => ?_⟩
    rcases List.prefix_cons_iff.1 hfront with rfl | ⟨front, rfl, hrest⟩
    · exact hdepth
    · exact h.nonneg front hrest

instance decidableCloses : (s : Scan) → (t : List Char) → Decidable (s.Closes t)
  | _, [] => decidable_of_iff _ closes_nil.symm
  | s, c :: t =>
    have := decidableCloses (s.next c) t
    decidable_of_iff _ closes_cons.symm

/-- Outside quotes nothing is escaped. -/
def Proper (s : Scan) : Prop := s.quote = none → s.escaped = false

theorem Proper.next (h : s.Proper) (c : Char) : (s.next c).Proper := by
  intro hquote
  unfold Scan.next at hquote ⊢
  cases hopen : s.quote with
  | none =>
    have hescaped := h hopen
    simp only
    iterate 3
      split
      · exact hescaped
    exact hescaped
  | some q =>
    -- a quote is only closed by a character that is not escaped, and only a backslash escapes
    rw [hopen] at hquote
    simp only at hquote ⊢
    by_cases hescaped : s.escaped = true
    · rw [if_pos hescaped]
    · rw [if_neg hescaped] at hquote ⊢
      by_cases hback : c = '\\'
      · rw [if_pos hback] at hquote
        cases hquote
      · rw [if_neg hback]
        split
        · exact Bool.eq_false_iff.2 hescaped
        · exact Bool.eq_false_iff.2 hescaped

theorem Proper.after (h : s.Proper) (t : List Char) : (s.after t).Proper := by
  induction t generalizing s with
  | nil => exact h
  | cons c t ih => exact ih (h.next c)

theorem proper_start : Scan.start.Proper := fun _ => rfl

/-- Outside quotes at depth zero nothing is open. -/
theorem Proper.eq_start (h : s.Proper) (hquote : s.quote = none) (hdepth : s.depth = 0) :
    s = .start := by
  obtain ⟨quote, escaped, depth⟩ := s
  obtain rfl : escaped = false := h hquote
  obtain rfl : quote = none := hquote
  obtain rfl : depth = 0 := hdepth
  rfl

/-- Nothing is open where an operator stands at depth zero. -/
theorem Proper.eq_start_of_standing (h : s.Proper) (hop : isPlain operator = true)
    (hstand : s.standing operator = some 0) : s = .start := by
  simp only [isPlain, Bool.and_eq_true, Bool.not_eq_true'] at hop
  unfold Scan.standing at hstand
  cases hopen : s.quote with
  | some q =>
    rw [hopen] at hstand
    cases hstand
  | none =>
    rw [hopen] at hstand
    simp only [hop.1.1, hop.2] at hstand
    exact h.eq_start hopen (Option.some.inj hstand)

theorem Closes.after_eq (h : Scan.start.Closes t) : Scan.start.after t = .start :=
  (proper_start.after t).eq_start h.quote h.depth

/-- An operator behind a text that closes what it opens cuts it. -/
theorem Closes.splitTopLevel_append_cons (h : Scan.start.Closes t) (hop : isPlain operator = true) :
    splitTopLevel operator (t ++ operator :: u) = splitTopLevel operator t ++
    splitTopLevel operator u := by
  have hstand : (Scan.start.after t).standing operator = some 0 := by
    rw [h.after_eq]
    exact standing_of_isPlain hop 0
  have hnext : (Scan.start.after t).next operator = .start := by
    rw [h.after_eq]
    exact next_of_isPlain hop 0
  rw [splitTopLevel, splitFrom_append_cons hstand, hnext]
  rfl

/-- The first piece closes what was open before it, and each other piece what it opens itself;
no operator stands at depth zero in a piece. -/
theorem Closes.pieces (h : s.Closes t) (hs : s.Proper) (hop : isPlain operator = true) :
    ∃ first others, splitFrom operator s t = first :: others ∧
      (s.Closes first ∧ (operator, 0) ∉ scanFrom s first) ∧
      ∀ piece, piece ∈ others → Scan.start.Closes piece ∧ (operator, 0) ∉ scan piece := by
  -- along the text, with the state that the first piece begins in; behind a cut this is the
  -- start again
  induction t generalizing s with
  | nil => exact ⟨[], [], rfl, ⟨h, List.not_mem_nil⟩, fun piece hpiece => absurd hpiece
    List.not_mem_nil⟩
  | cons c t ih =>
    obtain ⟨hdepth, hrest⟩ := closes_cons.1 h
    obtain ⟨first, others, hsplit, ⟨hfirst, hfree⟩, hothers⟩ := ih hrest (hs.next c)
    rw [splitFrom, hsplit]
    split
    next hcut =>
      -- the first piece of the rest becomes one of the others, so it has to begin at the start
      obtain ⟨rfl, hstand⟩ := hcut
      obtain rfl := hs.eq_start_of_standing hop hstand
      have hnext : Scan.start.next c = .start := next_of_isPlain hop 0
      rw [hnext] at hfirst hfree
      refine ⟨[], first :: others, rfl, ⟨closes_nil.2 ⟨rfl, rfl⟩, List.not_mem_nil⟩, ?_⟩
      exact List.forall_mem_cons.2 ⟨⟨hfirst, hfree⟩, hothers⟩
    next hcut =>
      refine ⟨c :: first, others, rfl, ⟨closes_cons.2 ⟨hdepth, hfirst⟩, ?_⟩, hothers⟩
      exact mt mem_scanFrom_cons.1 (not_or.2 ⟨hcut, hfree⟩)

end Scan

/-- A text that scans as a whole closes what it opens. -/
theorem Even.closes (h : Even t) : Scan.start.Closes t := by
  have hafter : Scan.start.after t = .start := h.after 0
  refine ⟨congrArg Scan.quote hafter, congrArg Scan.depth hafter, fun front hfront => ?_⟩
  exact depth_after_nonneg (Int.le_refl 0) (h.deep 0) hfront

/-! ## Unions and intersections -/

/-- A text is its pieces with the operator between them. If it closes what it opens, each
piece does so too, has no operator at its top level and is not split again; and with the
operator and another text behind it, its pieces are followed by those of the other text. -/
theorem splits_at_top_level (hop : operator = '|' ∨ operator = '&') :
    (∀ t, joinWith [operator] (splitTopLevel operator t) = t) ∧
      (∀ t, Scan.start.Closes t → ∀ piece, piece ∈ splitTopLevel operator t →
        Scan.start.Closes piece ∧ operator ∉ topLevel piece ∧
        splitTopLevel operator piece = [piece]) ∧
      ∀ t u, Scan.start.Closes t →
        splitTopLevel operator (t ++ operator :: u) = splitTopLevel operator t ++
        splitTopLevel operator u := by
  have hplain : isPlain operator = true := by
    rcases hop with rfl | rfl
    · rfl
    · rfl
  refine ⟨joinWith_splitFrom operator .start, fun t ht piece hpiece => ?_, fun t u ht => ?_⟩
  · obtain ⟨first, others, hsplit, hfirst, hothers⟩ := ht.pieces Scan.proper_start hplain
    rw [splitTopLevel, hsplit] at hpiece
    have hall : ∀ p, p ∈ first :: others → Scan.start.Closes p ∧ (operator, 0) ∉ scan p :=
      List.forall_mem_cons.2 ⟨hfirst, hothers⟩
    obtain ⟨hcloses, hfree⟩ := hall piece hpiece
    exact ⟨hcloses, mt (mem_topLevel_iff hplain).1 hfree, splitFrom_of_not_mem hfree⟩
  · exact ht.splitTopLevel_append_cons hplain

/-- Bars outside of brackets and quotes, in brackets and in quotes, the last behind a bracket
and an escaped quote. -/
def threeAlternatives : List Char := "A & (B | C) | \x7b b: C | D \x7d | '(\\'x|y'".toList

theorem splits_at_top_level_threeAlternatives :
    ('|' = '|' ∨ '|' = '&') ∧ Scan.start.Closes threeAlternatives ∧
      splitTopLevel '|' threeAlternatives =
        ["A & (B | C) ".toList, " \x7b b: C | D \x7d ".toList, " '(\\'x|y'".toList] ∧
      joinWith ['|'] (splitTopLevel '|' threeAlternatives) = threeAlternatives ∧
      (Scan.start.Closes " '(\\'x|y'".toList ∧ '|' ∉ topLevel " '(\\'x|y'".toList ∧
        splitTopLevel '|' " '(\\'x|y'".toList = [" '(\\'x|y'".toList]) ∧
      splitTopLevel '|' (threeAlternatives ++ '|' :: " null".toList) =
        splitTopLevel '|' threeAlternatives ++ splitTopLevel '|' " null".toList := by
  have hop : '|' = '|' ∨ '|' = '&' := Or.inl rfl
  have hcloses : Scan.start.Closes threeAlternatives := by decide
  have hsplit : splitTopLevel '|' threeAlternatives =
      ["A & (B | C) ".toList, " \x7b b: C | D \x7d ".toList, " '(\\'x|y'".toList] := by decide
  obtain ⟨hjoin, hpieces, happend⟩ := splits_at_top_level hop
  have hlast : " '(\\'x|y'".toList ∈ splitTopLevel '|' threeAlternatives := by
    rw [hsplit]
    exact List.mem_of_mem_getLast? rfl
  exact ⟨hop, hcloses, hsplit, hjoin _, hpieces _ hcloses _ hlast, happend _ _ hcloses⟩

end TypedClients.TypeText
