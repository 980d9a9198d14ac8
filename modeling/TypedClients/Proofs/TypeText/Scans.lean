import TypedClients.TypeText.Operators

/-!
# Texts that scan as a whole

What is written between brackets or quotes closes whatever it opens. Such a text is `Even`:
after it the scan is where it was before, and everything in it stands at least as deep as the
text itself. A text is `Unbarred` if no bar in it stands at its own depth.

* `Even.bracketed`, `unbarred_bracketed`: brackets around an even text hide what is inside.
* `mem_scanFrom_cons`: what a scan sees, one character at a time.
* `depth_after_nonneg`: where nothing is seen below zero, the depth does not fall below zero.
-/

namespace TypedClients.TypeText

/-- The scan outside quotes at some depth. -/
def outside (d : Int) : Scan := ⟨none, false, d⟩

theorem after_append (s : Scan) (t u : List Char) : s.after (t ++ u) = (s.after t).after u :=
  List.foldl_append

theorem after_cons (s : Scan) (c : Char) (t : List Char) : s.after (c :: t) = (s.next c).after t :=
  rfl

theorem scanFrom_append (s : Scan) (t u : List Char) :
    scanFrom s (t ++ u) = scanFrom s t ++ scanFrom (s.after t) u := by
  induction t generalizing s with
  | nil => rfl
  | cons c t ih =>
    rw [List.cons_append, scanFrom, scanFrom, after_cons]
    cases s.standing c with
    | none => exact ih _
    | some d => exact congrArg ((c, d) :: ·) (ih _)

/-- What a scan sees in a text: the first character, if it stands somewhere, or what it sees
in the rest. -/
theorem mem_scanFrom_cons {s : Scan} {c : Char} {t : List Char} {p : Char × Int} :
    p ∈ scanFrom s (c :: t) ↔ (c = p.1 ∧ s.standing c = some p.2) ∨ p ∈ scanFrom (s.next c) t := by
  rw [scanFrom]
  cases s.standing c with
  | none => simp
  | some d => simp [Prod.ext_iff, eq_comm]

/-- Only a closing bracket takes the depth down, to the depth at which it stands. -/
theorem depth_next_nonneg {s : Scan} {c : Char} (hs : 0 ≤ s.depth)
    (h : ∀ d, s.standing c = some d → 0 ≤ d) : 0 ≤ (s.next c).depth := by
  unfold Scan.next
  unfold Scan.standing at h
  cases hquote : s.quote with
  | some q =>
    simp only
    split
    · exact hs
    · split
      · exact hs
      · split
        · exact hs
        · exact hs
  | none =>
    rw [hquote] at h
    simp only at h ⊢
    split
    · exact hs
    next hnot =>
      split
      · exact Int.add_nonneg hs (by decide)
      · split
        next hcloser =>
          rw [if_neg hnot, if_pos hcloser] at h
          exact h _ rfl
        next => exact hs

/-- A scan that stands nowhere below zero never falls below zero. -/
theorem depth_after_nonneg {s : Scan} {t front : List Char} (hs : 0 ≤ s.depth)
    (h : ∀ p, p ∈ scanFrom s t → 0 ≤ p.2) (hfront : front <+: t) : 0 ≤ (s.after front).depth := by
  induction t generalizing s front with
  | nil =>
    rw [List.prefix_nil.1 hfront]
    exact hs
  | cons c t ih =>
    rcases List.prefix_cons_iff.1 hfront with rfl | ⟨front, rfl, hfront⟩
    · exact hs
    have hstands : ∀ d, s.standing c = some d → 0 ≤ d := fun d hd =>
      h (c, d) (mem_scanFrom_cons.2 (Or.inl ⟨rfl, hd⟩))
    have hrest : ∀ p, p ∈ scanFrom (s.next c) t → 0 ≤ p.2 := fun p hp =>
      h p (mem_scanFrom_cons.2 (Or.inr hp))
    rw [after_cons]
    exact ih (depth_next_nonneg hs hstands) hrest ((List.prefix_cons_inj c).1 hfront)

/-- A text closes what it opens, and nothing in it stands less deep than the text. -/
structure Even (t : List Char) : Prop where
  after : ∀ d, (outside d).after t = outside d
  deep : ∀ d p, p ∈ scanFrom (outside d) t → d ≤ p.2

/-- No bar stands at the depth of a text. -/
def Unbarred (t : List Char) : Prop := ∀ d, ('|', d) ∉ scanFrom (outside d) t

/-! ## Pieces -/

theorem Even.append {t u : List Char} (ht : Even t) (hu : Even u) : Even (t ++ u) := by
  refine ⟨fun d => ?_, fun d p hp => ?_⟩
  · rw [after_append, ht.after, hu.after]
  · rw [scanFrom_append, ht.after, List.mem_append] at hp
    exact hp.elim (ht.deep d p) (hu.deep d p)

theorem Unbarred.append {t u : List Char} (ht : Even t) (ht' : Unbarred t) (hu : Unbarred u) :
    Unbarred (t ++ u) := by
  intro d hp
  rw [scanFrom_append, ht.after, List.mem_append] at hp
  exact hp.elim (ht' d) (hu d)

/-- Whether a character neither quotes nor encloses anything. -/
def isPlain (c : Char) : Bool := !isQuote c && !isOpener c && !isCloser c

theorem next_of_isPlain {c : Char} (h : isPlain c = true) (d : Int) :
    (outside d).next c = outside d := by
  simp only [isPlain, Bool.and_eq_true, Bool.not_eq_true'] at h
  obtain ⟨⟨hq, ho⟩, hc⟩ := h
  simp [Scan.next, outside, hq, ho, hc]

theorem standing_of_isPlain {c : Char} (h : isPlain c = true) (d : Int) :
    (outside d).standing c = some d := by
  simp only [isPlain, Bool.and_eq_true, Bool.not_eq_true'] at h
  obtain ⟨⟨hq, -⟩, hc⟩ := h
  simp [Scan.standing, outside, hq, hc]

theorem scanFrom_of_isPlain {t : List Char} (h : ∀ c, c ∈ t → isPlain c = true) (d : Int) :
    scanFrom (outside d) t = t.map (·, d) := by
  induction t with
  | nil => rfl
  | cons c t ih =>
    have hc := h c List.mem_cons_self
    rw [scanFrom, standing_of_isPlain hc, next_of_isPlain hc,
      ih fun e he => h e (List.mem_cons_of_mem _ he)]
    rfl

theorem even_of_isPlain {t : List Char} (h : ∀ c, c ∈ t → isPlain c = true) : Even t := by
  refine ⟨fun d => ?_, fun d p hp => ?_⟩
  · induction t with
    | nil => rfl
    | cons c t ih =>
      rw [after_cons, next_of_isPlain (h c List.mem_cons_self)]
      exact ih fun e he => h e (List.mem_cons_of_mem _ he)
  · rw [scanFrom_of_isPlain h] at hp
    obtain ⟨c, -, rfl⟩ := List.mem_map.1 hp
    exact Int.le_refl d

theorem unbarred_of_isPlain {t : List Char} (h : ∀ c, c ∈ t → isPlain c = true) (hbar : '|' ∉ t) :
    Unbarred t := by
  intro d hp
  rw [scanFrom_of_isPlain h] at hp
  obtain ⟨c, hc, he⟩ := List.mem_map.1 hp
  exact hbar ((Prod.mk.inj he).1 ▸ hc)

/-! ## Brackets -/

/-- The pairs of brackets of type expressions. -/
def brackets : List (Char × Char) := [('(', ')'), ('[', ']'), ('\x7b', '\x7d'), ('<', '>')]

section Brackets

variable {o c : Char} {t : List Char}

theorem scanFrom_bracketed (ho : isOpener o = true) (hc : isCloser c = true)
    (hoq : isQuote o = false) (hcq : isQuote c = false) (hoc : isCloser o = false)
    (hco : isOpener c = false) (ht : Even t) (d : Int) :
    scanFrom (outside d) (o :: t ++ [c]) = (o, d) :: scanFrom (outside (d + 1)) t ++ [(c, d)] ∧
      (outside d).after (o :: t ++ [c]) = outside d := by
  have hnext : (outside d).next o = outside (d + 1) := by simp [Scan.next, outside, ho, hoq]
  have hopen : (outside d).standing o = some d := by simp [Scan.standing, outside, hoq, hoc]
  have hclose : (outside (d + 1)).standing c = some d := by simp [Scan.standing, outside, hcq, hc]
  have hlast : (outside (d + 1)).next c = outside d := by simp [Scan.next, outside, hcq, hc, hco]
  refine ⟨?_, ?_⟩
  · rw [List.cons_append, scanFrom, hopen, hnext]
    simp only [scanFrom_append, ht.after, scanFrom, hclose, List.cons_append]
  · rw [List.cons_append, after_cons, hnext, after_append, ht.after, after_cons, hlast]
    rfl

theorem isBracketPair (h : (o, c) ∈ brackets) :
    isOpener o = true ∧ isCloser c = true ∧ isQuote o = false ∧ isQuote c = false ∧
      isCloser o = false ∧ isOpener c = false := by
  simp only [brackets, List.mem_cons, Prod.mk.injEq, List.not_mem_nil, or_false] at h
  rcases h with ⟨rfl, rfl⟩ | ⟨rfl, rfl⟩ | ⟨rfl, rfl⟩ | ⟨rfl, rfl⟩
  all_goals decide

theorem Even.bracketed (h : (o, c) ∈ brackets)
    (ht : Even t) : Even (o :: t ++ [c]) := by
  obtain ⟨ho, hc, hoq, hcq, hoc, hco⟩ := isBracketPair h
  refine ⟨fun d => (scanFrom_bracketed ho hc hoq hcq hoc hco ht d).2, fun d p hp => ?_⟩
  rw [(scanFrom_bracketed ho hc hoq hcq hoc hco ht d).1, List.mem_append, List.mem_cons,
    List.mem_singleton] at hp
  rcases hp with (rfl | hp) | rfl
  · exact Int.le_refl d
  · have hdeep := ht.deep (d + 1) p hp
    omega
  · exact Int.le_refl d

theorem unbarred_bracketed (h : (o, c) ∈ brackets)
    (ht : Even t) : Unbarred (o :: t ++ [c]) := by
  obtain ⟨ho, hc, hoq, hcq, hoc, hco⟩ := isBracketPair h
  intro d hp
  rw [(scanFrom_bracketed ho hc hoq hcq hoc hco ht d).1, List.mem_append, List.mem_cons,
    List.mem_singleton] at hp
  rcases hp with (he | hp) | he
  · rw [← (Prod.mk.inj he).1] at ho
    cases ho
  · have hdeep := ht.deep (d + 1) _ hp
    simp only at hdeep
    omega
  · rw [← (Prod.mk.inj he).1] at hc
    cases hc

end Brackets

/-! ## Quoted parts -/

/-- The inside of a quoted part: a backslash takes the next character along, and no other
character is the quote. -/
inductive Escaped (quote : Char) : List Char → Prop
  | nil : Escaped quote []
  | char {c : Char} {t : List Char} (hq : c ≠ quote) (hb : c ≠ '\\') (h : Escaped quote t) :
      Escaped quote (c :: t)
  | pair {c : Char} {t : List Char} (h : Escaped quote t) : Escaped quote ('\\' :: c :: t)

variable {quote : Char}

theorem Escaped.append {t u : List Char} (ht : Escaped quote t) (hu : Escaped quote u) :
    Escaped quote (t ++ u) := by
  induction ht with
  | nil => exact hu
  | char hq hb _ ih => exact .char hq hb ih
  | pair _ ih => exact .pair ih

theorem Escaped.flatMap {f : Char → List Char} (hf : ∀ c, Escaped quote (f c)) (t : List Char) :
    Escaped quote (t.flatMap f) := by
  induction t with
  | nil => exact .nil
  | cons c t ih =>
    rw [List.flatMap_cons]
    exact (hf c).append ih

theorem Escaped.of_forall {t : List Char} (h : ∀ c, c ∈ t → c ≠ quote ∧ c ≠ '\\') :
    Escaped quote t := by
  induction t with
  | nil => exact .nil
  | cons c t ih =>
    obtain ⟨hq, hb⟩ := h c List.mem_cons_self
    exact .char hq hb (ih fun e he => h e (List.mem_cons_of_mem _ he))

/-- Inside a quoted part nothing stands anywhere, and the quote stays open. -/
theorem Escaped.scan {t : List Char} (h : Escaped quote t) (d : Int) :
    (⟨some quote, false, d⟩ : Scan).after t = ⟨some quote, false, d⟩ ∧
      scanFrom ⟨some quote, false, d⟩ t = [] := by
  induction h with
  | nil => exact ⟨rfl, rfl⟩
  | @char c t hq hb _ ih =>
    have hnext : (⟨some quote, false, d⟩ : Scan).next c = ⟨some quote, false, d⟩ := by
      simp [Scan.next, hq, hb]
    rw [after_cons, scanFrom, hnext]
    exact ih
  | @pair c t _ ih =>
    have hnext : ((⟨some quote, false, d⟩ : Scan).next '\\').next c = ⟨some quote, false, d⟩ := by
      simp [Scan.next]
    rw [after_cons, after_cons, hnext, scanFrom, scanFrom, hnext]
    exact ih

theorem scanFrom_quoted (hq : isQuote quote = true) {t : List Char}
    (h : Escaped quote t) (d : Int) :
    scanFrom (outside d) (quote :: t ++ [quote]) = [] ∧
      (outside d).after (quote :: t ++ [quote]) = outside d := by
  have hopen : (outside d).next quote = ⟨some quote, false, d⟩ := by simp [Scan.next, outside, hq]
  have hstand : (outside d).standing quote = none := by simp [Scan.standing, outside, hq]
  have hback : quote ≠ '\\' := by
    rintro rfl
    cases hq
  have hclose : (⟨some quote, false, d⟩ : Scan).next quote = outside d := by
    simp [Scan.next, outside, hback]
  obtain ⟨hafter, hscan⟩ := h.scan d
  refine ⟨?_, ?_⟩
  · rw [List.cons_append, scanFrom, hstand, hopen]
    simp only [scanFrom_append, hscan, hafter, List.nil_append]
    rfl
  · rw [List.cons_append, after_cons, hopen, after_append, hafter, after_cons, hclose]
    rfl

theorem even_quoted (hq : isQuote quote = true) {t : List Char} (h : Escaped quote t) :
    Even (quote :: t ++ [quote]) := by
  refine ⟨fun d => (scanFrom_quoted hq h d).2, fun d p hp => ?_⟩
  rw [(scanFrom_quoted hq h d).1] at hp
  exact absurd hp List.not_mem_nil

theorem unbarred_quoted (hq : isQuote quote = true) {t : List Char} (h : Escaped quote t) :
    Unbarred (quote :: t ++ [quote]) := by
  intro d hp
  rw [(scanFrom_quoted hq h d).1] at hp
  exact absurd hp List.not_mem_nil

/-! ## Operators at depth zero -/

/-- The top level of a text has the characters at depth zero, brackets left out. -/
theorem mem_topLevel_iff {c : Char} (hc : isPlain c = true) {t : List Char} :
    c ∈ topLevel t ↔ (c, 0) ∈ scan t := by
  simp only [isPlain, Bool.and_eq_true, Bool.not_eq_true'] at hc
  rw [topLevel, List.mem_filterMap]
  refine ⟨?_, fun h => ⟨(c, 0), h, by simp [hc.1.2, hc.2]⟩⟩
  rintro ⟨⟨e, d⟩, hmem, he⟩
  rw [Option.ite_none_right_eq_some] at he
  obtain ⟨⟨rfl, -⟩, he⟩ := he
  obtain rfl := Option.some.inj he
  exact hmem

/-- An operator between two texts stands at their depth. -/
theorem mem_scan_operator {c : Char} (hc : isPlain c = true) {t u : List Char} (ht : Even t) :
    (c, 0) ∈ scan (t ++ c :: u) := by
  have hafter := ht.after 0
  rw [scan]
  refine (scanFrom_append .start t _).symm ▸ List.mem_append_right _ ?_
  have hstart : Scan.start.after t = outside 0 := hafter
  rw [hstart, scanFrom, standing_of_isPlain hc]
  exact List.mem_cons_self

/-- At most one blank. -/
def Blank (s : List Char) : Prop := s = [] ∨ s = [' ']

theorem Blank.isPlain {s : List Char} (h : Blank s) :
    (∀ c, c ∈ s → TypeText.isPlain c = true) ∧ '|' ∉ s := by
  rcases h with rfl | rfl
  · exact ⟨fun c hc => absurd hc List.not_mem_nil, List.not_mem_nil⟩
  · exact ⟨List.all_eq_true.1 (by decide), by decide⟩

/-- The separator that an operator is between the types it joins. -/
def around (operator : Char) : List Char := [' ', operator, ' ']

end TypedClients.TypeText
