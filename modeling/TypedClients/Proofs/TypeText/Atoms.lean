import TypedClients.Proofs.TypeText.Reader
import TypedClients.Proofs.TypeText.Scans

/-!
# Atoms as they are read and scanned

A text is `Atomic` if, wherever it stands, the reader takes it as one type that binds at least
as tightly as `[]`, and a scan finds no bar at its depth. Words, quoted literals, JSON values
and everything in brackets are atomic, and an atomic text stays so with `[]` behind it.
-/

namespace TypedClients.TypeText

open Text (isBlank trim trimStart trimEnd)

/-! ## Ends of texts -/

/-- A text neither begins nor ends with a blank. -/
structure Trimmed (t : List Char) : Prop where
  head : ∃ c, t.head? = some c ∧ isBlank c = false
  last : ∃ c, t.getLast? = some c ∧ isBlank c = false

theorem Blank.isBlank {s : List Char} (h : Blank s) : ∀ c, c ∈ s → Text.isBlank c = true := by
  rcases h with rfl | rfl
  · exact fun c hc => absurd hc List.not_mem_nil
  · exact List.all_eq_true.1 (by decide)

theorem trimStart_cons {c : Char} (h : isBlank c = false) (rest : List Char) :
    trimStart (c :: rest) = c :: rest :=
  Text.trimStart_eq_self fun _ hd => Option.some.inj hd ▸ h

theorem Trimmed.trimStart_append {t : List Char} (h : Trimmed t) (u : List Char) :
    trimStart (t ++ u) = t ++ u := by
  obtain ⟨c, hc, hblank⟩ := h.head
  cases t with
  | nil => cases hc
  | cons d t =>
    obtain rfl : d = c := Option.some.inj hc
    exact trimStart_cons hblank (t ++ u)

theorem trimmed_bracketed {o c : Char} (ho : isBlank o = false) (hc : isBlank c = false)
    (t : List Char) : Trimmed (o :: t ++ [c]) :=
  ⟨⟨o, rfl, ho⟩, ⟨c, List.getLast?_concat, hc⟩⟩

theorem trimStart_blank_append {a : List Char} (ha : Blank a) (u : List Char) :
    trimStart (a ++ u) = trimStart u := by
  rw [trimStart, trimStart, List.dropWhile_append_of_pos ha.isBlank]

/-- Blanks around a text are trimmed. -/
theorem Trimmed.trim_eq {t a b : List Char} (h : Trimmed t) (ha : Blank a) (hb : Blank b) :
    trim (a ++ (t ++ b)) = t := by
  obtain ⟨c, hc, hblank⟩ := h.last
  rw [trim, trimStart_blank_append ha, h.trimStart_append, trimEnd, List.reverse_append,
    List.dropWhile_append_of_pos fun c hc => hb.isBlank c (List.mem_reverse.1 hc)]
  rw [List.getLast?_eq_head?_reverse] at hc
  cases hr : t.reverse with
  | nil =>
    rw [hr] at hc
    cases hc
  | cons d r =>
    rw [hr] at hc
    obtain rfl : d = c := Option.some.inj hc
    rw [List.dropWhile_cons_of_neg (by rw [hblank]; exact Bool.false_ne_true), ← hr,
      List.reverse_reverse]

/-! ## Parts without types inside -/

theorem readQuoted_cons {quote c : Char} (h : c ≠ '\\') (rest : List Char) :
    readQuoted quote (c :: rest) =
      if c = quote then some ([], rest) else keep c (readQuoted quote rest) := by
  rw [readQuoted]
  intro _ _ he
  exact absurd he h

theorem readQuoted_append {quote : Char} (hquote : quote ≠ '\\') {t : List Char}
    (h : Escaped quote t) (rest : List Char) :
    readQuoted quote (t ++ quote :: rest) = some (t, rest) := by
  induction h with
  | nil => rw [List.nil_append, readQuoted_cons hquote, if_pos rfl]
  | @char c t hq hb _ ih => rw [List.cons_append, readQuoted_cons hb, if_neg hq, ih]; rfl
  | @pair c t _ ih => rw [List.cons_append, List.cons_append, readQuoted, ih]; rfl

theorem readCollection_cons {depth : Nat} {quoted : Bool} {c : Char} (h : c ≠ '\\')
    (rest : List Char) :
    readCollection depth quoted (c :: rest) =
      if c = '\x22' then keep c (readCollection depth (!quoted) rest)
      else if quoted then keep c (readCollection depth true rest)
      else if c = '[' ∨ c = '\x7b' then keep c (readCollection (depth + 1) false rest)
      else if c = ']' ∨ c = '\x7d' then
        if depth = 1 then some ([c], rest) else keep c (readCollection (depth - 1) false rest)
      else keep c (readCollection depth false rest) := by
  rw [readCollection]
  intro _ _ he
  exact absurd he h

/-- The brackets of JSON collections. -/
def jsonBrackets : List (Char × Char) := [('[', ']'), ('\x7b', '\x7d')]

/-- What was read with a text in front. -/
def keepAll (t : List Char) (r : Option (List Char × List Char)) : Option (List Char × List Char) :=
  r.map fun (text, rest) => (t ++ text, rest)

theorem keepAll_nil (r : Option (List Char × List Char)) : keepAll [] r = r := by
  cases r with
  | none => rfl
  | some r => rfl

theorem keep_keepAll (c : Char) (t : List Char) (r : Option (List Char × List Char)) :
    keep c (keepAll t r) = keepAll (c :: t) r := by
  cases r with
  | none => rfl
  | some r => rfl

theorem keepAll_append (t u : List Char) (r : Option (List Char × List Char)) :
    keepAll t (keepAll u r) = keepAll (t ++ u) r := by
  cases r with
  | none => rfl
  | some r => exact congrArg (fun l => some (l, r.2)) (List.append_assoc t u r.1).symm

theorem readCollection_escaped {t : List Char} (h : Escaped '\x22' t) (depth : Nat)
    (rest : List Char) :
    readCollection depth true (t ++ rest) = keepAll t (readCollection depth true rest) := by
  induction h with
  | nil => exact (keepAll_nil _).symm
  | @char c t hq hb _ ih =>
    rw [List.cons_append, readCollection_cons hb, if_neg hq, if_pos rfl, ih, keep_keepAll]
  | @pair c t _ ih =>
    rw [List.cons_append, List.cons_append, readCollection, ih, keep_keepAll, keep_keepAll]

/-- Part of a JSON value: a scan finds it even and unbarred, and inside a collection it is read
over. -/
structure Inert (t : List Char) : Prop where
  even : Even t
  unbarred : Unbarred t
  reads : ∀ depth rest, readCollection (depth + 1) false (t ++ rest) =
    keepAll t (readCollection (depth + 1) false rest)

theorem Inert.append {t u : List Char} (ht : Inert t) (hu : Inert u) : Inert (t ++ u) := by
  -- what is read over twice is read over as one
  refine ⟨ht.even.append hu.even, ht.unbarred.append ht.even hu.unbarred, ?_⟩
  intro depth rest
  rw [List.append_assoc, ht.reads, hu.reads, keepAll_append]

/-- A character that stands for itself in JSON outside of strings. -/
def isInert (c : Char) : Bool := isPlain c && c ≠ '|' && c ≠ '\\'

theorem inert_of_isInert {t : List Char} (h : ∀ c, c ∈ t → isInert c = true) : Inert t := by
  have hplain : ∀ c, c ∈ t → isPlain c = true := by
    intro c hc
    have hi := h c hc
    simp only [isInert, Bool.and_eq_true] at hi
    exact hi.1.1
  have hbar : '|' ∉ t := by
    intro hc
    exact absurd (h _ hc) (by decide)
  refine ⟨even_of_isPlain hplain, unbarred_of_isPlain hplain hbar, fun depth rest => ?_⟩
  clear hplain hbar
  induction t with
  | nil => exact (keepAll_nil _).symm
  | cons c t ih =>
    have hc := h c List.mem_cons_self
    simp only [isInert, isPlain, isQuote, isOpener, isCloser, Bool.and_eq_true,
      Bool.not_eq_true', Bool.or_eq_false_iff, decide_eq_false_iff_not, decide_eq_true_eq] at hc
    obtain ⟨⟨⟨⟨⟨-, hquote⟩, ⟨⟨-, hbracket⟩, hbrace⟩, -⟩, ⟨⟨-, hbracket'⟩, hbrace'⟩, -⟩, -⟩,
      hback⟩ :=
      hc
    rw [List.cons_append, readCollection_cons hback, if_neg hquote, if_neg Bool.false_ne_true,
      if_neg (not_or.2 ⟨hbracket, hbrace⟩), if_neg (not_or.2 ⟨hbracket', hbrace'⟩),
      ih fun d hd => h d (List.mem_cons_of_mem _ hd), keep_keepAll]

theorem inert_string {t : List Char} (h : Escaped '\x22' t) : Inert ('\x22' :: t ++ ['\x22']) := by
  have hq : isQuote '\x22' = true := rfl
  refine ⟨even_quoted hq h, unbarred_quoted hq h, fun depth rest => ?_⟩
  have hback : '\x22' ≠ '\\' := by decide
  have hclose : readCollection (depth + 1) true ('\x22' :: rest) =
      keepAll ['\x22'] (readCollection (depth + 1) false rest) := by
    rw [readCollection_cons hback, if_pos rfl]
    rfl
  rw [List.cons_append, List.cons_append, List.append_assoc, readCollection_cons hback,
    if_pos rfl, Bool.not_false, readCollection_escaped h, List.singleton_append, hclose,
    keepAll_append, keep_keepAll]

/-- The brackets of a JSON collection around its inside. -/
theorem readCollection_bracketed {o c : Char} (h : (o, c) ∈ jsonBrackets)
    {t : List Char} (ht : Inert t) (depth : Nat) (rest : List Char) :
    readCollection depth false (o :: t ++ [c] ++ rest) =
      if depth = 0 then some (o :: t ++ [c], rest)
      else keepAll (o :: t ++ [c]) (readCollection depth false rest) := by
  have hchars : o ≠ '\\' ∧ c ≠ '\\' ∧ o ≠ '\x22' ∧ c ≠ '\x22' ∧ (o = '[' ∨ o = '\x7b') ∧
      ¬(c = '[' ∨ c = '\x7b') ∧ (c = ']' ∨ c = '\x7d') := by
    simp only [jsonBrackets, List.mem_cons, Prod.mk.injEq, List.not_mem_nil, or_false] at h
    rcases h with ⟨rfl, rfl⟩ | ⟨rfl, rfl⟩
    all_goals decide
  obtain ⟨hob, hcb, hoq, hcq, ho, hco, hc⟩ := hchars
  rw [List.cons_append, List.cons_append, List.append_assoc, readCollection_cons hob, if_neg hoq,
    if_neg Bool.false_ne_true, if_pos ho, ht.reads, List.singleton_append, readCollection_cons hcb,
    if_neg hcq, if_neg Bool.false_ne_true, if_neg hco, if_pos hc]
  cases depth with
  | zero => rfl
  | succ depth =>
    rw [if_neg (by omega), if_neg (Nat.succ_ne_zero depth)]
    have hkeep : ∀ r, keep c r = keepAll [c] r := fun r => rfl
    rw [hkeep, keepAll_append, keep_keepAll]
    rfl

theorem inert_bracketed {o c : Char} (h : (o, c) ∈ jsonBrackets)
    {t : List Char} (ht : Inert t) : Inert (o :: t ++ [c]) := by
  have hpair : (o, c) ∈ brackets := by
    simp only [brackets, jsonBrackets, List.mem_cons, Prod.mk.injEq, List.not_mem_nil,
      or_false] at h ⊢
    exact Or.inr (h.imp_right Or.inl)
  refine ⟨ht.even.bracketed hpair, unbarred_bracketed hpair ht.even, fun depth rest => ?_⟩
  rw [readCollection_bracketed h ht, if_neg (Nat.succ_ne_zero depth)]

/-! ## Atomic texts -/

/-- What may stand behind a type: no character that would belong to a word before it. -/
def Stops (rest : List Char) : Prop := ∀ c, rest.head? = some c → isWordPart c = false ∧ c ≠ '<'

/-- A text that is read as one type, binding at least as tightly as `[]`. -/
structure Atomic (t : List Char) (τ : TypeTree) : Prop where
  reads : ∀ n rest, Stops rest → 4 * t.length + 1 ≤ n →
    readPostfix n (t ++ rest) = some (arrays τ rest)
  even : Even t
  unbarred : Unbarred t
  trimmed : Trimmed t

theorem reads_of_readSingle {t : List Char} {τ : TypeTree} (hne : t ≠ [])
    (h : ∀ n rest, Stops rest → 4 * t.length ≤ n + 1 →
      readSingle (n + 1) (t ++ rest) = some (τ, rest)) :
    ∀ n rest, Stops rest → 4 * t.length + 1 ≤ n →
      readPostfix n (t ++ rest) = some (arrays τ rest) := by
  intro n rest hrest hn
  have hlength := List.length_pos_iff.2 hne
  obtain ⟨m, rfl⟩ : ∃ m, n = m + 2 := ⟨n - 2, by omega⟩
  rw [readPostfix, h m rest hrest (by omega)]
  rfl

theorem Atomic.array {t : List Char} {τ : TypeTree} (h : Atomic t τ) :
    Atomic (t ++ ['[', ']']) (.array τ) := by
  have hpair : ('[', ']') ∈ brackets := by decide
  have hinside : Even [] := even_of_isPlain fun c hc => absurd hc List.not_mem_nil
  have hbrackets : Even ['[', ']'] := hinside.bracketed hpair
  have hbrackets' : Unbarred ['[', ']'] := unbarred_bracketed hpair hinside
  refine ⟨fun n rest hrest hn => ?_, h.even.append hbrackets,
    h.unbarred.append h.even hbrackets', ?_⟩
  · have hstops : Stops (['[', ']'] ++ rest) := by
      intro c hc
      obtain rfl : '[' = c := Option.some.inj hc
      decide
    rw [List.length_append] at hn
    rw [List.append_assoc, h.reads n _ hstops (by omega)]
    rfl
  · refine ⟨?_, ']', by simp, by decide⟩
    obtain ⟨c, hc, hblank⟩ := h.trimmed.head
    exact ⟨c, by rw [List.head?_append, hc]; rfl, hblank⟩

theorem readSingle_cons {c : Char} (hc : isBlank c = false) (n : Nat) (rest : List Char) :
    readSingle (n + 1) (c :: rest) =
      if c = '(' then (readUnion n rest).bind (closedBy ')')
      else if c = '\x27' ∨ c = '\x22' then readLiteral c rest
      else if c = '[' ∨ c = '\x7b' ∧ rest.head? = some '\x22' then readJson (c :: rest)
      else if c = '\x7b' then ofBrace (readMembers n) rest
      else ofWord (readUnion n) ((c :: rest).takeWhile isWordPart)
        ((c :: rest).dropWhile isWordPart) := by
  rw [readSingle, trimStart_cons hc]

/-! ### Words -/

theorem ne_of_isWordPart {c d : Char} (h : isWordPart c = true) (hd : isWordPart d = false) :
    c ≠ d := by
  rintro rfl
  rw [h] at hd
  cases hd

theorem toNat_of_isWordPart {c : Char} (h : isWordPart c = true) :
    0x24 ≤ c.toNat ∧ c.toNat ≤ 0x7A := by
  simp only [isWordPart, Naming.isIdentifierPart, Naming.isAlphanumeric, Text.isAsciiLetter,
    Text.isAsciiDigit, Bool.or_eq_true, Bool.and_eq_true, decide_eq_true_eq] at h
  have ha : ('a' : Char).toNat = 97 := rfl
  have hz : ('z' : Char).toNat = 122 := rfl
  have hA : ('A' : Char).toNat = 65 := rfl
  have hZ : ('Z' : Char).toNat = 90 := rfl
  have h0 : ('0' : Char).toNat = 48 := rfl
  have h9 : ('9' : Char).toNat = 57 := rfl
  rcases h with ((((((h | h) | h) | rfl) | rfl) | rfl) | rfl) | rfl
  · omega
  · omega
  · omega
  all_goals decide

theorem not_isBlank_of_isWordPart {c : Char} (h : isWordPart c = true) : isBlank c = false := by
  have hrange := toNat_of_isWordPart h
  simp only [isBlank, Bool.or_eq_false_iff, Bool.and_eq_false_iff, decide_eq_false_iff_not,
    beq_eq_false_iff_ne]
  omega

theorem isInert_of_isWordPart {c : Char} (h : isWordPart c = true) : isInert c = true := by
  have hne : ∀ d, isWordPart d = false → c ≠ d := fun d => ne_of_isWordPart h
  simp [isInert, isPlain, isQuote, isOpener, isCloser, hne '\x27' (by decide),
    hne '\x22' (by decide), hne '(' (by decide), hne '[' (by decide), hne '\x7b' (by decide),
    hne '<' (by decide), hne ')' (by decide), hne ']' (by decide), hne '\x7d' (by decide),
    hne '>' (by decide), hne '|' (by decide), hne '\\' (by decide)]

theorem trimmed_of_ends {t : List Char} (hne : t ≠ []) (h : ∀ c, c ∈ t → isBlank c = false) :
    Trimmed t := by
  obtain ⟨c, hc⟩ := Option.isSome_iff_exists.1 (List.isSome_head?.2 hne)
  exact ⟨⟨c, hc, h c (List.mem_of_head? hc)⟩,
    ⟨t.getLast hne, List.getLast?_eq_some_getLast hne, h _ (List.getLast_mem hne)⟩⟩

theorem readSingle_word {c : Char} (h : isWordPart c = true) (n : Nat) (rest : List Char) :
    readSingle (n + 1) (c :: rest) = ofWord (readUnion n) ((c :: rest).takeWhile isWordPart)
      ((c :: rest).dropWhile isWordPart) := by
  have hne : ∀ d, isWordPart d = false → c ≠ d := fun d => ne_of_isWordPart h
  rw [readSingle_cons (not_isBlank_of_isWordPart h)]
  simp only [hne '(' (by decide), hne '\x27' (by decide), hne '\x22' (by decide),
    hne '[' (by decide), hne '\x7b' (by decide), false_or, false_and, if_false]

/-- A word is an atom. -/
theorem atomic_word {t : List Char} (hne : t ≠ []) (h : ∀ c, c ∈ t → isWordPart c = true) :
    Atomic t (.atom (String.ofList t)) := by
  have hinert := inert_of_isInert fun c hc => isInert_of_isWordPart (h c hc)
  have htrimmed := trimmed_of_ends hne fun c hc => not_isBlank_of_isWordPart (h c hc)
  refine ⟨reads_of_readSingle hne fun n rest hrest hn => ?_, hinert.even, hinert.unbarred,
    htrimmed⟩
  -- the word ends where the text ends, and no dictionary begins behind it
  have htake : rest.takeWhile isWordPart = [] ∧ rest.dropWhile isWordPart = rest ∧
      recordOpening.isPrefixOf rest = false := by
    cases rest with
    | nil => exact ⟨rfl, rfl, rfl⟩
    | cons c rest =>
      obtain ⟨hc, hopen⟩ := hrest c rfl
      rw [List.takeWhile_cons, List.dropWhile_cons, hc]
      refine ⟨rfl, rfl, ?_⟩
      have hopen' : ¬('<' = c) := fun e => hopen e.symm
      simp [recordOpening, List.isPrefixOf, hopen']
  have hword : (t ++ rest).takeWhile isWordPart = t := by
    rw [List.takeWhile_append_of_pos h, htake.1, List.append_nil]
  have hafter : (t ++ rest).dropWhile isWordPart = rest := by
    rw [List.dropWhile_append_of_pos h, htake.2.1]
  cases t with
  | nil => exact absurd rfl hne
  | cons c s =>
    rw [List.cons_append] at hword hafter ⊢
    rw [readSingle_word (h c List.mem_cons_self), hword, hafter, ofWord, if_neg hne, htake.2.2,
      if_neg fun hand => Bool.false_ne_true hand.2]

/-! ### Quoted literals and JSON -/

/-- A quoted literal is an atom. -/
theorem atomic_quoted {quote : Char} (hq : isQuote quote = true) {t : List Char}
    (h : Escaped quote t) :
    Atomic (quote :: t ++ [quote]) (.atom (String.ofList (quote :: t ++ [quote]))) := by
  have hquote : quote = '\x27' ∨ quote = '\x22' := by
    rw [isQuote, Bool.or_eq_true, decide_eq_true_eq, decide_eq_true_eq] at hq
    exact hq
  have hfacts : isBlank quote = false ∧ quote ≠ '(' ∧ quote ≠ '\\' := by
    rcases hquote with rfl | rfl
    all_goals decide
  obtain ⟨hblank, hparen, hback⟩ := hfacts
  refine ⟨reads_of_readSingle (List.cons_ne_nil _ _) fun n rest _ _ => ?_, even_quoted hq h,
    unbarred_quoted hq h, trimmed_bracketed hblank hblank t⟩
  rw [List.cons_append, List.cons_append, List.append_assoc, readSingle_cons hblank,
    if_neg hparen, if_pos hquote, readLiteral, List.singleton_append, readQuoted_append hback h]
  rfl

/-- A JSON collection is an atom, unless it is an object without members. -/
theorem atomic_collection {o c : Char} (h : (o, c) ∈ jsonBrackets) {t : List Char}
    (ht : Inert t) (hhead : o = '[' ∨ t.head? = some '\x22') :
    Atomic (o :: t ++ [c]) (.atom (String.ofList (o :: t ++ [c]))) := by
  have hinert := inert_bracketed h ht
  have hfacts : isBlank o = false ∧ isBlank c = false ∧ o ≠ '(' ∧ ¬(o = '\x27' ∨ o = '\x22') ∧
      (o = '[' ∨ o = '\x7b') := by
    simp only [jsonBrackets, List.mem_cons, Prod.mk.injEq, List.not_mem_nil, or_false] at h
    rcases h with ⟨rfl, rfl⟩ | ⟨rfl, rfl⟩
    all_goals decide
  obtain ⟨hblank, hblank', hparen, hquote, ho⟩ := hfacts
  refine ⟨reads_of_readSingle (List.cons_ne_nil _ _) fun n rest _ _ => ?_, hinert.even,
    hinert.unbarred, trimmed_bracketed hblank hblank' t⟩
  have hjson : o = '[' ∨ o = '\x7b' ∧ (t ++ [c] ++ rest).head? = some '\x22' := by
    rcases hhead with hhead | hhead
    · exact Or.inl hhead
    · refine ho.imp_right fun ho => ⟨ho, ?_⟩
      rw [List.append_assoc, List.head?_append, hhead]
      rfl
  have hread := readCollection_bracketed h ht 0 rest
  rw [List.cons_append, List.cons_append] at hread ⊢
  rw [readSingle_cons hblank, if_neg hparen, if_neg hquote, if_pos hjson, readJson, hread]
  rfl

/-- The object type without members, which is also the JSON object without members. -/
theorem atomic_empty : Atomic ['\x7b', '\x7d'] (.object []) := by
  have hpair : ('\x7b', '\x7d') ∈ brackets := by
    decide
  have hinside : Even [] := even_of_isPlain fun c hc => absurd hc List.not_mem_nil
  refine ⟨reads_of_readSingle (List.cons_ne_nil _ _) fun n rest _ _ => ?_,
    hinside.bracketed hpair, unbarred_bracketed hpair hinside,
    trimmed_bracketed (by decide) (by decide) []⟩
  have hblank : isBlank '\x7b' = false := rfl
  rw [List.cons_append, readSingle_cons hblank]
  rfl

end TypedClients.TypeText
