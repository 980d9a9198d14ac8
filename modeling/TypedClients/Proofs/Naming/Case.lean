import TypedClients.Proofs.Naming.Identifiers

/-!
# Writing a name in Pascal case twice

A name in Pascal case is made of letters and digits, so that writing it in Pascal case once
more finds no words in it and drops nothing: all that a second pass can do is to raise the
first letter (`pascalChars_of_plain`). In camel case the first letter is lowered in the end,
so there the pass before makes no difference (`camel_pascal`).

The first pass raises the first *character*, and drops what is no letter or digit only
afterwards. The character that ends up first has been raised if it came first in the text or
behind a separator (`raiseFirst_joinWords`), but not if it stood in the middle of a word of
which the front was dropped. `beginsSmall_pascalChars_iff` says that these are the only names
that begin with a small letter, and `pascal_pascal_eq_iff` that they are the only ones on
which a second pass does something. So `pascal_settles` tells from a text whether one pass is
enough; two always are.
-/

namespace TypedClients.Naming

open Text (isAsciiDigit isAsciiLetter lowerAscii)

/-! ## Letters and digits -/

/-- Whether a character is a small ASCII letter. -/
def isSmall (c : Char) : Bool := 'a'.toNat ≤ c.toNat && c.toNat ≤ 'z'.toNat

/-- Whether a character is an ASCII capital. -/
def isCapital (c : Char) : Bool := 'A'.toNat ≤ c.toNat && c.toNat ≤ 'Z'.toNat

/-- Whether the first character of a text is a small letter. -/
def beginsSmall (s : List Char) : Bool := s.head?.any isSmall

/-- The separators of words are no letters or digits. -/
theorem not_separator_of_isAlphanumeric {c : Char} (h : isAlphanumeric c = true) :
    isSeparator c = false :=
  forall_isAlphanumeric (P := fun c => isSeparator c = false) (by decide) h

theorem isAlphanumeric_of_isSmall {c : Char} (h : isSmall c = true) : isAlphanumeric c = true := by
  rw [isSmall] at h
  rw [isAlphanumeric, isAsciiLetter, h]
  rfl

theorem isSmall_eq_false_iff {c : Char} (h : isAlphanumeric c = true) :
    isSmall c = false ↔ isCapital c = true ∨ isAsciiDigit c = true :=
  forall_isAlphanumeric
    (P := fun c => isSmall c = false ↔ isCapital c = true ∨ isAsciiDigit c = true) (by decide) h

theorem isAlphanumeric_upperAscii {c : Char} (h : isAlphanumeric c = true) :
    isAlphanumeric (upperAscii c) = true :=
  forall_isAlphanumeric (P := fun c => isAlphanumeric (upperAscii c) = true) (by decide) h

theorem isAsciiDigit_upperAscii {c : Char} (h : isAlphanumeric c = true) :
    isAsciiDigit (upperAscii c) = isAsciiDigit c :=
  forall_isAlphanumeric (P := fun c => isAsciiDigit (upperAscii c) = isAsciiDigit c) (by decide) h

theorem lowerAscii_upperAscii {c : Char} (h : isAlphanumeric c = true) :
    lowerAscii (upperAscii c) = lowerAscii c :=
  forall_isAlphanumeric (P := fun c => lowerAscii (upperAscii c) = lowerAscii c) (by decide) h

theorem upperAscii_upperAscii {c : Char} (h : isAlphanumeric c = true) :
    upperAscii (upperAscii c) = upperAscii c :=
  forall_isAlphanumeric (P := fun c => upperAscii (upperAscii c) = upperAscii c) (by decide) h

/-- Small letters are those that have a capital of their own. -/
theorem upperAscii_eq_self_iff {c : Char} (h : isAlphanumeric c = true) :
    upperAscii c = c ↔ isSmall c = false :=
  forall_isAlphanumeric (P := fun c => upperAscii c = c ↔ isSmall c = false) (by decide) h

/-! ## Capital forms -/

theorem capital_of_isAlphanumeric {c : Char} (h : isAlphanumeric c = true) :
    capital c = [upperAscii c] := if_pos (toNat_lt_of_isAlphanumeric h)

/-- Every capital form begins with a character that is its own capital form. -/
theorem exists_capital (c : Char) : ∃ d form, capital c = d :: form ∧ capital d = [d] := by
  have hforms : ∀ form, form ∈ capitalForms.map Prod.snd →
      (form.head?.any fun d => capital d = [d]) = true := by decide
  unfold capital
  split
  next hascii =>
    have hall : ∀ n : Fin 128, capital (upperAscii (Char.ofNat n)) =
      [upperAscii (Char.ofNat n)] := by
      decide
    have hc := hall ⟨c.toNat, hascii⟩
    rw [Char.ofNat_toNat] at hc
    exact ⟨upperAscii c, [], rfl, hc⟩
  next hascii =>
    cases hform : capitalForms.find? (·.1 = c.toNat) with
    | none =>
      refine ⟨c, [], rfl, ?_⟩
      rw [if_neg hascii, hform]
    | some e =>
      have hhead := hforms e.2 (List.mem_map_of_mem (List.mem_of_find?_eq_some hform))
      obtain ⟨d, hd, hself⟩ := (Option.any_eq_true _ _).1 hhead
      obtain ⟨form, heq⟩ := List.head?_eq_some_iff.1 hd
      exact ⟨d, form, heq, of_decide_eq_true hself⟩

/-- No capital form has a small letter in it. -/
theorem not_isSmall_of_mem_capital {c d : Char} (h : d ∈ capital c) : isSmall d = false := by
  have hforms : ∀ form, form ∈ capitalForms.map Prod.snd →
    (form.all fun d => !isSmall d) = true := by
    decide
  unfold capital at h
  split at h
  next hascii =>
    have hall : ∀ n : Fin 128, isSmall (upperAscii (Char.ofNat n)) = false := by decide
    have hc := hall ⟨c.toNat, hascii⟩
    rw [Char.ofNat_toNat] at hc
    rwa [List.mem_singleton.1 h]
  next hascii =>
    cases hform : capitalForms.find? (·.1 = c.toNat) with
    | some e =>
      rw [hform] at h
      have hform := hforms e.2 (List.mem_map_of_mem (List.mem_of_find?_eq_some hform))
      exact (Bool.not_eq_true' _).mp (List.all_eq_true.1 hform d h)
    | none =>
      rw [hform] at h
      rw [List.mem_singleton.1 h, Bool.eq_false_iff]
      exact fun hsmall => hascii (toNat_lt_of_isAlphanumeric (isAlphanumeric_of_isSmall hsmall))

/-! ## A second pass -/

theorem joinWords_of_plain {s : List Char} (h : Plain s) : joinWords false s = s := by
  induction s with
  | nil => rfl
  | cons c rest ih =>
    rw [joinWords, not_separator_of_isAlphanumeric (h c List.mem_cons_self),
      ih fun d hd => h d (List.mem_cons_of_mem _ hd)]
    rfl

/-- Of a text of letters and digits, Pascal case raises the first letter and leaves the rest
as it is. -/
theorem pascalChars_of_plain {s : List Char} (h : Plain s) :
    pascalChars s = s.modifyHead upperAscii := by
  rw [pascalChars, joinWords_of_plain h]
  cases s with
  | nil => rfl
  | cons c rest =>
    have hc := h c List.mem_cons_self
    have hrest : rest.filter isAlphanumeric = rest :=
      List.filter_eq_self.2 fun d hd => h d (List.mem_cons_of_mem _ hd)
    rw [raiseFirst, capital_of_isAlphanumeric hc, List.singleton_append,
      List.filter_cons_of_pos (isAlphanumeric_upperAscii hc), hrest]
    rfl

theorem toList_pascal_pascal (s : String) :
    (pascal (pascal s)).toList = (pascal s).toList.modifyHead upperAscii := by
  rw [pascal.eq_def (pascal s), String.toList_ofList, pascalChars_of_plain (plain_pascal s)]

/-- The name in camel case is the same whether a text is written in Pascal case before or not. -/
theorem camel_pascal (s : String) : camel (pascal s) = camel s := by
  have hplain := plain_pascalChars s.toList
  have hlower : lowerFirst ((pascalChars s.toList).modifyHead upperAscii) =
      lowerFirst (pascalChars s.toList) := by
    cases hs : pascalChars s.toList with
    | nil => rfl
    | cons c rest =>
      rw [hs] at hplain
      exact congrArg (List.cons · rest) (lowerAscii_upperAscii (hplain c List.mem_cons_self))
  rw [camel, camel, pascal, String.toList_ofList, pascalChars_of_plain hplain, hlower]

/-! ## What ends up first -/

theorem joinWords_of_separator {c : Char} (h : isSeparator c = true) (raising : Bool)
    (rest : List Char) : joinWords raising (c :: rest) = joinWords true rest := by
  rw [joinWords, if_pos h]

theorem joinWords_of_not_separator {c : Char} (h : isSeparator c = false) (raising : Bool)
    (rest : List Char) :
    joinWords raising (c :: rest) = (if raising then capital c else [c]) ++
    joinWords false rest := by
  rw [joinWords, h]
  rfl

/-- The first word is raised like those behind a separator. -/
theorem raiseFirst_joinWords (s : List Char) :
    raiseFirst (joinWords false s) = joinWords true s := by
  -- to raise once more what has been raised changes nothing
  have hraised : ∀ s, raiseFirst (joinWords true s) = joinWords true s := by
    intro s
    induction s with
    | nil => rfl
    | cons c rest ih =>
      cases hc : isSeparator c with
      | true =>
        rw [joinWords_of_separator hc]
        exact ih
      | false =>
        obtain ⟨d, form, hform, hd⟩ := exists_capital c
        rw [joinWords_of_not_separator hc, if_pos rfl, hform, List.cons_append, raiseFirst, hd]
        rfl
  cases s with
  | nil => rfl
  | cons c rest =>
    cases hc : isSeparator c with
    | true =>
      rw [joinWords_of_separator hc, joinWords_of_separator hc]
      exact hraised rest
    | false =>
      rw [joinWords_of_not_separator hc, joinWords_of_not_separator hc]
      rfl

theorem pascalChars_eq (s : List Char) :
    pascalChars s = (joinWords true s).filter isAlphanumeric := by
  rw [pascalChars, raiseFirst_joinWords]

/-- What is left of a text is nothing up to some character that separates no words, and behind
this comes a small letter. -/
def StartsInside (raising : Bool) (s : List Char) : Prop :=
  ∃ front b c rest, s = front ++ b :: c :: rest ∧
    (joinWords raising (front ++ [b])).filter isAlphanumeric = [] ∧
    isSeparator b = false ∧ isSmall c = true

theorem startsInside_of_separator {c : Char} (h : isSeparator c = true) (raising : Bool)
    (s : List Char) : StartsInside raising (c :: s) ↔ StartsInside true s := by
  constructor
  · rintro ⟨front, b, d, rest, hs, hnone, hb, hd⟩
    cases front with
    | nil =>
      obtain ⟨rfl, -⟩ := List.cons.inj hs
      rw [h] at hb
      cases hb
    | cons e front =>
      obtain ⟨rfl, rfl⟩ := List.cons.inj hs
      rw [List.cons_append, joinWords_of_separator h] at hnone
      exact ⟨front, b, d, rest, rfl, hnone, hb, hd⟩
  · rintro ⟨front, b, d, rest, rfl, hnone, hb, hd⟩
    refine ⟨c :: front, b, d, rest, rfl, ?_, hb, hd⟩
    rw [List.cons_append, joinWords_of_separator h]
    exact hnone

/-- Whether a text starts inside a word, if it does not begin with a separator: its first
character is dropped, and behind this comes a small letter or a text that starts inside a
word. -/
theorem startsInside_of_not_separator {c : Char} (h : isSeparator c = false) (raising : Bool)
    (s : List Char) : StartsInside raising (c :: s) ↔
      (if raising then capital c else [c]).filter isAlphanumeric = [] ∧
        (beginsSmall s = true ∨ StartsInside false s) := by
  constructor
  · rintro ⟨front, b, d, rest, hs, hnone, hb, hd⟩
    cases front with
    | nil =>
      obtain ⟨rfl, rfl⟩ := List.cons.inj hs
      rw [List.nil_append, joinWords_of_not_separator h, List.filter_append,
        List.append_eq_nil_iff] at hnone
      exact ⟨hnone.1, Or.inl hd⟩
    | cons e front =>
      obtain ⟨rfl, rfl⟩ := List.cons.inj hs
      rw [List.cons_append, joinWords_of_not_separator h, List.filter_append,
        List.append_eq_nil_iff] at hnone
      exact ⟨hnone.1, Or.inr ⟨front, b, d, rest, rfl, hnone.2, hb, hd⟩⟩
  · rintro ⟨hdropped, hsmall | ⟨front, b, d, rest, rfl, hnone, hb, hd⟩⟩
    · cases s with
      | nil => cases hsmall
      | cons d rest =>
        refine ⟨[], c, d, rest, rfl, ?_, h, hsmall⟩
        rw [List.nil_append, joinWords_of_not_separator h, List.filter_append, hdropped]
        rfl
    · refine ⟨c :: front, b, d, rest, rfl, ?_, hb, hd⟩
      rw [List.cons_append, joinWords_of_not_separator h, List.filter_append, hdropped, hnone]
      rfl

/-- What is left of a text begins with a small letter exactly if the text does so itself,
where it is not raised, or starts inside a word. -/
theorem beginsSmall_joinWords (raising : Bool) (s : List Char) :
    beginsSmall ((joinWords raising s).filter isAlphanumeric) = true ↔
      (raising = false ∧ beginsSmall s = true) ∨ StartsInside raising s := by
  induction s generalizing raising with
  | nil =>
    have hno : ¬StartsInside raising [] := by
      rintro ⟨front, b, c, rest, hs, -⟩
      exact absurd hs (List.append_ne_nil_of_right_ne_nil front (List.cons_ne_nil _ _)).symm
    exact ⟨fun h => (nomatch h), fun h => h.elim (fun h => (nomatch h.2)) fun h => absurd h hno⟩
  | cons c rest ih =>
    have hfirst : beginsSmall (c :: rest) = isSmall c := rfl
    cases hc : isSeparator c with
    | true =>
      have hsmall : isSmall c = false := by
        rw [Bool.eq_false_iff]
        intro h
        rw [not_separator_of_isAlphanumeric (isAlphanumeric_of_isSmall h)] at hc
        cases hc
      rw [joinWords_of_separator hc, ih, startsInside_of_separator hc, hfirst, hsmall]
      simp only [Bool.true_eq_false, false_and, Bool.false_eq_true, and_false, false_or]
    | false =>
      rw [joinWords_of_not_separator hc, List.filter_append,
        startsInside_of_not_separator hc, hfirst]
      cases hword : (if raising then capital c else [c]).filter isAlphanumeric with
      | nil =>
        -- the character is dropped, so it is no small letter
        have hnot : ¬(raising = false ∧ isSmall c = true) := by
          rintro ⟨rfl, hsmall⟩
          have hkept := List.filter_eq_nil_iff.1 hword c List.mem_cons_self
          exact hkept (isAlphanumeric_of_isSmall hsmall)
        rw [List.nil_append, ih]
        simp only [hnot, true_and, false_or]
      | cons d word =>
        have hd : d ∈ (if raising then capital c else [c]).filter isAlphanumeric :=
          hword ▸ List.mem_cons_self
        have hword' : beginsSmall (d :: word ++ (joinWords false rest).filter isAlphanumeric) =
            isSmall d := rfl
        rw [hword']
        simp only [reduceCtorEq, false_and, or_false]
        cases raising with
        | true =>
          rw [not_isSmall_of_mem_capital (List.mem_filter.1 hd).1]
          simp only [Bool.false_eq_true, Bool.true_eq_false, false_and]
        | false =>
          rw [List.mem_singleton.1 (List.mem_filter.1 hd).1]
          simp only [true_and]

/-- A name in Pascal case begins with a small letter exactly if what it is made of starts
inside a word. -/
theorem beginsSmall_pascalChars_iff (s : List Char) :
    beginsSmall (pascalChars s) = true ↔ StartsInside true s := by
  rw [pascalChars_eq, beginsSmall_joinWords]
  simp only [Bool.true_eq_false, false_and, false_or]

/-! ## Where the first pass is final -/

theorem modifyHead_upperAscii_eq_self_iff {s : List Char} (h : Plain s) :
    s.modifyHead upperAscii = s ↔ beginsSmall s = false := by
  cases s with
  | nil => exact ⟨fun _ => rfl, fun _ => rfl⟩
  | cons c rest =>
    have hc := h c List.mem_cons_self
    have hhead : (c :: rest).modifyHead upperAscii = c :: rest ↔ upperAscii c = c := by
      rw [List.modifyHead_cons, List.cons.injEq, and_iff_left rfl]
    exact hhead.trans (upperAscii_eq_self_iff hc)

theorem pascal_pascal_eq_iff (s : String) :
    pascal (pascal s) = pascal s ↔ beginsSmall (pascal s).toList = false := by
  rw [← String.toList_inj, toList_pascal_pascal, modifyHead_upperAscii_eq_self_iff (plain_pascal s)]

theorem beginsSmall_eq_false_iff {s : List Char} (h : Plain s) : beginsSmall s = false ↔
    ∀ c, s.head? = some c → isCapital c = true ∨ isAsciiDigit c = true := by
  cases s with
  | nil => exact ⟨fun _ _ hc => (nomatch hc), fun _ => rfl⟩
  | cons c rest =>
    have hc : beginsSmall (c :: rest) = false ↔ _ := isSmall_eq_false_iff (h c List.mem_cons_self)
    rw [hc]
    exact ⟨fun h d hd => Option.some.inj hd ▸ h, fun h => h c rfl⟩

/-- A second pass leaves a name as it is exactly if the first pass gave nothing or something
that begins with a capital or a digit; and that is so unless a small letter stands behind a
character that separates no words while nothing is left of the text up to there. A third pass
changes nothing in any case. -/
theorem pascal_settles (s : String) :
    (pascal (pascal s) = pascal s ↔
      ∀ c, (pascal s).toList.head? = some c → isCapital c = true ∨ isAsciiDigit c = true) ∧
    (pascal (pascal s) = pascal s ↔
      ¬∃ front b c rest, s.toList = front ++ b :: c :: rest ∧ pascalChars (front ++ [b]) = [] ∧
        isSeparator b = false ∧ isSmall c = true) ∧
    pascal (pascal (pascal s)) = pascal (pascal s) := by
  refine ⟨?_, ?_, ?_⟩
  · rw [pascal_pascal_eq_iff, beginsSmall_eq_false_iff (plain_pascal s)]
  · simp only [pascalChars_eq (_ ++ _)]
    rw [pascal_pascal_eq_iff, pascal, String.toList_ofList, ← Bool.not_eq_true,
      beginsSmall_pascalChars_iff]
    rfl
  · rw [pascal_pascal_eq_iff, toList_pascal_pascal]
    have hplain := plain_pascal s
    cases hs : (pascal s).toList with
    | nil => rfl
    | cons c rest =>
      rw [hs] at hplain
      have hc := hplain c List.mem_cons_self
      exact (upperAscii_eq_self_iff (isAlphanumeric_upperAscii hc)).1 (upperAscii_upperAscii hc)

/-- The dot comes first and is raised, and then it is dropped. -/
theorem pascal_user_behind_dot : pascal ".user" = "user" ∧ pascal (pascal ".user") = "User" := by
  decide

end TypedClients.Naming
