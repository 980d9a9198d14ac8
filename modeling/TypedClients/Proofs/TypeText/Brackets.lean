import TypedClients.Proofs.TypeText.Chains
import TypedClients.Proofs.TypeText.Splitting

/-!
# Types in brackets

A union is written with bars at its depth, an intersection with ampersands, so that a text
without them is what binds more tightly (`Alternatives.operands`, `Operands.atomic`), and
splitting at the bars gives the parts of a union back (`Alternatives.pieces`). In parentheses,
as the value of a dictionary or as a member of an object, every type may stand: the brackets
make it atomic (`Alternatives.parens`, `Alternatives.dictionary`, `atomic_object`).
-/

namespace TypedClients.TypeText

open Text (isBlank trimStart joinWith)
open TypeTree (interOf unionOf)

variable {t : List Char} {τ : TypeTree}

/-! ## Shape of unions and intersections -/

theorem isPlain_around {c : Char} (hc : isPlain c = true) :
    ∀ d, d ∈ around c → isPlain d = true := by
  intro d hd
  simp only [around, List.mem_cons, List.not_mem_nil, or_false] at hd
  rcases hd with rfl | rfl | rfl
  · decide
  · exact hc
  · decide

section Joined

variable {operator : Char} {tree : List TypeTree → TypeTree} {part : List Char → TypeTree → Prop}

theorem Joined.even (hop : isPlain operator = true) (hpart : ∀ {s σ}, part s σ → Even s)
    (h : Joined operator tree part t τ) : Even t := by
  obtain ⟨parts, -, hparts, rfl, -⟩ := h
  refine even_joinWith (even_of_isPlain (isPlain_around hop)) fun s hs => ?_
  obtain ⟨p, hp, rfl⟩ := List.mem_map.1 hs
  exact hpart (hparts p hp)

theorem Joined.trimmed (hpart : ∀ {s σ}, part s σ → Trimmed s)
    (h : Joined operator tree part t τ) : Trimmed t := by
  obtain ⟨parts, hne, hparts, rfl, -⟩ := h
  refine trimmed_joinWith _ (fun e => hne (List.map_eq_nil_iff.1 e)) fun s hs => ?_
  obtain ⟨p, hp, rfl⟩ := List.mem_map.1 hs
  exact hpart (hparts p hp)

/-- An operator between parts stands at depth zero, so a text without one is a single part. -/
theorem Joined.part_of_topLevel (hop : isPlain operator = true) (hone : ∀ a, tree [a] = a)
    (hpart : ∀ {s σ}, part s σ → Even s) (h : Joined operator tree part t τ)
    (htop : (topLevel t).contains operator = false) : part t τ := by
  obtain ⟨parts, hne, hparts, rfl, rfl⟩ := h
  match parts with
  | [] => exact absurd rfl hne
  | [p] =>
    rw [List.map_singleton, List.map_singleton, hone]
    exact hparts p List.mem_cons_self
  | p :: q :: rest =>
    have htext : joinWith (around operator) ((p :: q :: rest).map Prod.fst) =
        (p.1 ++ [' ']) ++ operator ::
          ([' '] ++ joinWith (around operator) ((q :: rest).map Prod.fst)) := by
      simp only [List.map_cons, joinWith, around, List.append_assoc, List.cons_append,
        List.nil_append]
    have heven := (hpart (hparts p List.mem_cons_self)).append
      (even_of_isPlain (t := [' ']) (List.all_eq_true.1 (by decide)))
    rw [htext, Bool.eq_false_iff, ne_eq, List.contains_iff_mem, mem_topLevel_iff hop] at htop
    exact absurd (mem_scan_operator hop heven) htop

end Joined

theorem Operands.even (h : Operands t τ) : Even t := Joined.even rfl Atomic.even h

theorem Operands.trimmed (h : Operands t τ) : Trimmed t := Joined.trimmed Atomic.trimmed h

theorem Operands.unbarred (h : Operands t τ) : Unbarred t := by
  obtain ⟨parts, -, hparts, rfl, -⟩ := h
  have hsep := isPlain_around (c := '&') rfl
  refine unbarred_joinWith (even_of_isPlain hsep) (unbarred_of_isPlain hsep (by decide))
    fun s hs => ?_
  obtain ⟨p, hp, rfl⟩ := List.mem_map.1 hs
  exact ⟨(hparts p hp).even, (hparts p hp).unbarred⟩

theorem Alternatives.even (h : Alternatives t τ) : Even t := Joined.even rfl Operands.even h

/-- A union without a bar at depth zero is a single intersection. -/
theorem Alternatives.operands (h : Alternatives t τ) (hbar : (topLevel t).contains '|' = false) :
    Operands t τ := Joined.part_of_topLevel rfl (fun _ => rfl) Operands.even h hbar

/-- An intersection without an ampersand at depth zero is a single atomic text. -/
theorem Operands.atomic (h : Operands t τ) (hamp : (topLevel t).contains '&' = false) :
    Atomic t τ := Joined.part_of_topLevel rfl (fun _ => rfl) Atomic.even h hamp

/-- Splitting a union at its bars gives its parts back, each with the blanks around it.
`before` is what is left of the separator in front of the first part. -/
theorem trim_splitTopLevel_joinWith {parts : List (List Char)} (hne : parts ≠ [])
    (h : ∀ p, p ∈ parts → Even p ∧ Unbarred p ∧ Trimmed p) {before : List Char}
    (hbefore : Blank before) :
    (splitTopLevel '|' (before ++ joinWith (around '|') parts)).map Text.trim = parts := by
  have hb := even_of_isPlain hbefore.isPlain.1
  have hb' := unbarred_of_isPlain hbefore.isPlain.1 hbefore.isPlain.2
  induction parts using Text.joinWith.induct generalizing before with
  | case1 => exact absurd rfl hne
  | case2 p =>
    obtain ⟨-, hbar, htrimmed⟩ := h p List.mem_cons_self
    have htrim := htrimmed.trim_eq hbefore (Or.inl rfl : Blank [])
    rw [List.append_nil] at htrim
    rw [joinWith, (hb'.append hb hbar).splitTopLevel_eq, List.map_singleton, htrim]
  | case3 p q rest ih =>
    obtain ⟨heven, hbar, htrimmed⟩ := h p List.mem_cons_self
    have hblank : Blank [' '] := Or.inr rfl
    have hs := even_of_isPlain hblank.isPlain.1
    have hs' := unbarred_of_isPlain hblank.isPlain.1 hblank.isPlain.2
    have he : Even (before ++ (p ++ [' '])) := hb.append (heven.append hs)
    have hu : Unbarred (before ++ (p ++ [' '])) := hb'.append hb (hbar.append heven hs')
    have htext : before ++ joinWith (around '|') (p :: q :: rest) =
        before ++ (p ++ [' ']) ++ '|' :: ([' '] ++ joinWith (around '|') (q :: rest)) := by
      rw [joinWith, around]
      simp only [List.append_assoc, List.cons_append, List.nil_append]
    have hrest := ih (List.cons_ne_nil _ _) (fun r hr => h r (List.mem_cons_of_mem _ hr))
      hblank hs hs'
    rw [htext, he.closes.splitTopLevel_append_cons rfl, hu.splitTopLevel_eq, List.map_append, hrest,
      List.map_singleton, htrimmed.trim_eq hbefore hblank]
    rfl

/-- A union is split into the texts of its parts. -/
theorem Alternatives.pieces (h : Alternatives t τ) :
    ∃ parts : List (List Char × TypeTree), parts ≠ [] ∧ (∀ p, p ∈ parts → Operands p.1 p.2) ∧
      t = joinWith (around '|') (parts.map Prod.fst) ∧ τ = unionOf (parts.map Prod.snd) ∧
      (splitTopLevel '|' t).map Text.trim = parts.map Prod.fst := by
  obtain ⟨parts, hne, hparts, rfl, rfl⟩ := h
  refine ⟨parts, hne, hparts, rfl, rfl, ?_⟩
  refine trim_splitTopLevel_joinWith (fun e => hne (List.map_eq_nil_iff.1 e)) (fun s hs => ?_)
    (Or.inl rfl : Blank [])
  obtain ⟨p, hp, rfl⟩ := List.mem_map.1 hs
  exact ⟨(hparts p hp).even, (hparts p hp).unbarred, (hparts p hp).trimmed⟩

/-! ## Brackets around types -/

/-- A type in parentheses is atomic. -/
theorem Alternatives.parens (h : Alternatives t τ) : Atomic ('(' :: t ++ [')']) τ := by
  have hpair : ('(', ')') ∈ brackets := by decide
  have hends : ∀ rest, Ends ['|', '&'] (')' :: rest) := fun rest =>
    ends_append (Or.inl rfl) rfl (by decide) rest
  have hblank : isBlank '(' = false := rfl
  refine ⟨reads_of_readSingle (List.cons_ne_nil _ _) fun n rest _ hn => ?_,
    h.even.bracketed hpair, unbarred_bracketed hpair h.even,
    trimmed_bracketed hblank (by decide) t⟩
  rw [List.cons_append, List.length_cons, List.length_append, List.length_singleton] at hn
  rw [List.cons_append, List.cons_append, List.append_assoc, readSingle_cons hblank, if_pos rfl,
    List.singleton_append, h.reads (hends rest) (by omega)]
  rfl

/-- The type of a dictionary is read as its value type up to the closing bracket. -/
theorem readSingle_record (n : Nat) (s : List Char) :
    readSingle (n + 1) (recordName ++ (recordOpening ++ s)) =
      ((readUnion n s).bind (closedBy '>')).map fun (t, rest) => (.record t, rest) := by
  have hne : recordName ≠ [] := List.cons_ne_nil _ _
  have hname : ∀ c, c ∈ recordName → isWordPart c = true :=
    List.all_eq_true.1 (by decide)
  have htake : (recordName ++ (recordOpening ++ s)).takeWhile isWordPart = recordName := by
    rw [List.takeWhile_append_of_pos hname]
    exact List.append_nil _
  have hdrop : (recordName ++ (recordOpening ++ s)).dropWhile isWordPart = recordOpening ++ s := by
    rw [List.dropWhile_append_of_pos hname]
    rfl
  have hopen : recordOpening.isPrefixOf (recordOpening ++ s) = true :=
    List.isPrefixOf_iff_prefix.2 (List.prefix_append _ _)
  have hword := readSingle_word (c := 'R') rfl n
    (['e', 'c', 'o', 'r', 'd'] ++ (recordOpening ++ s))
  refine hword.trans ?_
  rw [show 'R' :: (['e', 'c', 'o', 'r', 'd'] ++ (recordOpening ++ s)) =
    recordName ++ (recordOpening ++ s) from rfl, htake, hdrop, ofWord,
    if_neg hne, if_pos ⟨rfl, hopen⟩, List.drop_left]

/-- The type of a dictionary is atomic. -/
theorem Alternatives.dictionary (h : Alternatives t τ) :
    Atomic (recordName ++ (recordOpening ++ (' ' :: t) ++ ['>'])) (.record τ) := by
  have hpair : ('<', '>') ∈ brackets := by decide
  have hplain : ∀ c, c ∈ recordName → isPlain c = true :=
    List.all_eq_true.1 (by decide)
  have hkey : Even (recordOpening.tail ++ (' ' :: t)) :=
    (even_of_isPlain (t := recordOpening.tail ++ [' ']) (List.all_eq_true.1 (by decide))).append
      h.even
  have hends : ∀ rest, Ends ['|', '&'] ('>' :: rest) := fun rest =>
    ends_append (Or.inl rfl) rfl (by decide) rest
  refine ⟨reads_of_readSingle (List.cons_ne_nil _ _) fun n rest _ hn => ?_,
    (even_of_isPlain hplain).append (hkey.bracketed hpair),
    (unbarred_of_isPlain hplain (by decide)).append (even_of_isPlain hplain)
      (unbarred_bracketed hpair hkey), ?_⟩
  · have hlength : recordOpening.length = 8 := rfl
    simp only [List.length_append, List.length_cons, hlength] at hn
    rw [List.append_assoc, List.append_assoc, List.append_assoc, readSingle_record,
      List.cons_append, readUnion_blank, List.singleton_append, h.reads (hends rest) (by omega)]
    rfl
  · refine ⟨⟨'R', rfl, rfl⟩, ⟨'>', ?_, rfl⟩⟩
    rw [← List.append_assoc, List.getLast?_concat]

/-! ## Object types -/

/-- A text that is read as the key of a member. -/
structure Keyed (k : List Char) (name : String) : Prop where
  reads : ∀ rest, rest.head? = some '?' ∨ rest.head? = some ':' →
    readKey (k ++ rest) = some (name, rest)
  even : Even k
  head : ∃ c, k.head? = some c ∧ isBlank c = false ∧ c ≠ '\x7d'

/-- The text of a member: its key, its mark and its type. -/
def memberText (k : List Char) (optional : Bool) (t : List Char) : List Char :=
  k ++ ((if optional then ['?'] else []) ++ ':' :: ' ' :: t)

/-- A text that is read as a member of an object type. -/
def Member (text : List Char) (m : String × Bool × TypeTree) : Prop :=
  ∃ k t, Keyed k m.1 ∧ Alternatives t m.2.2 ∧ text = memberText k m.2.1 t

/-- The separator of members. -/
def semicolon : List Char := [';', ' ']

theorem readKey_blank {a : List Char} (ha : Blank a) (s : List Char) :
    readKey (a ++ s) = readKey s := by
  rw [readKey, readKey, trimStart_blank_append ha]

theorem Member.head {text : List Char} {m : String × Bool × TypeTree} (h : Member text m)
    (rest : List Char) :
    ∃ c after, text ++ rest = c :: after ∧ isBlank c = false ∧ c ≠ '\x7d' := by
  obtain ⟨k, t, hk, -, rfl⟩ := h
  obtain ⟨c, hc, hblank, hbrace⟩ := hk.head
  cases k with
  | nil => cases hc
  | cons d k =>
    obtain rfl : d = c := Option.some.inj hc
    exact ⟨d, _, rfl, hblank, hbrace⟩

theorem Member.even {text : List Char} {m : String × Bool × TypeTree} (h : Member text m) :
    Even text := by
  obtain ⟨k, t, hk, ht, rfl⟩ := h
  refine hk.even.append (Even.append ?_ ?_)
  · split
    · exact even_of_isPlain (List.all_eq_true.1 (by decide))
    · exact even_of_isPlain (List.all_eq_true.1 (by decide))
  · exact (even_of_isPlain (t := [':', ' ']) (List.all_eq_true.1 (by decide))).append ht.even

/-- The key, the mark and the type of a member are read one after the other. -/
theorem Member.reads {text : List Char} {m : String × Bool × TypeTree} (h : Member text m)
    {a : List Char} (ha : Blank a) {n : Nat} {rest : List Char} (hrest : Ends ['|', '&'] rest)
    (hn : 4 * text.length ≤ n + 1) :
    ∃ s s', readKey (a ++ (text ++ rest)) = some (m.1, s) ∧ readMark s = some (m.2.1, s') ∧
      readUnion n s' = some (m.2.2, rest) := by
  obtain ⟨k, t, hk, ht, rfl⟩ := h
  obtain ⟨name, optional, τ⟩ := m
  simp only [memberText, List.length_append, List.length_cons] at hn
  refine ⟨(if optional then ['?'] else []) ++ ':' :: (' ' :: t ++ rest),
    ' ' :: t ++ rest, ?_, ?_, ?_⟩
  · rw [readKey_blank ha, memberText, List.append_assoc, List.append_assoc]
    refine hk.reads _ ?_
    cases optional with
    | true => exact Or.inl rfl
    | false => exact Or.inr rfl
  · cases optional with
    | true => rfl
    | false => rfl
  · rw [List.cons_append, readUnion_blank]
    exact ht.reads hrest (by omega)

/-- Joined members are read one after the other. -/
theorem readMembers_joinWith {parts : List (List Char × String × Bool × TypeTree)}
    (hne : parts ≠ []) (h : ∀ p, p ∈ parts → Member p.1 p.2) {a : List Char}
    (ha : Blank a) {n : Nat} (rest : List Char)
    (hn : 4 * (joinWith semicolon (parts.map Prod.fst)).length ≤ n) :
    readMembers (n + 1)
        (a ++ (joinWith semicolon (parts.map Prod.fst) ++ ' ' :: '\x7d' :: rest)) =
      some (parts.map Prod.snd, rest) := by
  induction parts generalizing a n with
  | nil => exact absurd rfl hne
  | cons p others ih =>
    have hp := h p List.mem_cons_self
    cases others with
    | nil =>
      have hends : Ends ['|', '&'] ([' '] ++ '\x7d' :: rest) :=
        ends_append (Or.inr rfl) rfl (by decide) rest
      have hlength : (joinWith semicolon ([p].map Prod.fst)).length = p.1.length := rfl
      rw [hlength] at hn
      obtain ⟨s, s', hkey, hmark, htype⟩ := hp.reads ha hends (n := n) (by omega)
      have htrim : trimStart ([' '] ++ '\x7d' :: rest) = '\x7d' :: rest := rfl
      have htext : joinWith semicolon ([p].map Prod.fst) ++ ' ' :: '\x7d' :: rest =
          p.1 ++ ([' '] ++ '\x7d' :: rest) := rfl
      rw [htext, readMembers, hkey]
      simp only [Option.bind_eq_bind, Option.bind_some, hmark, htype, htrim]
      rfl
    | cons q others =>
      -- a semicolon ends this member, and the blank behind it is read over with the next key
      have htext : joinWith semicolon ((p :: q :: others).map Prod.fst) ++ ' ' :: '\x7d' :: rest =
          p.1 ++ ';' :: ([' '] ++ (joinWith semicolon ((q :: others).map Prod.fst) ++
            ' ' :: '\x7d' :: rest)) := by
        simp only [List.map_cons, joinWith, semicolon, List.append_assoc, List.cons_append,
          List.nil_append]
      have hlength : (joinWith semicolon ((p :: q :: others).map Prod.fst)).length =
          p.1.length + 2 + (joinWith semicolon ((q :: others).map Prod.fst)).length := by
        simp only [List.map_cons, joinWith, semicolon, List.length_append, List.length_cons,
          List.length_nil]
      rw [hlength] at hn
      obtain ⟨m, rfl⟩ : ∃ m, n = m + 1 := ⟨n - 1, by omega⟩
      have hends : Ends ['|', '&'] ([] ++ ';' :: ([' '] ++
          (joinWith semicolon ((q :: others).map Prod.fst) ++ ' ' :: '\x7d' :: rest))) :=
        ends_append (Or.inl rfl) rfl (by decide) _
      have hothers := ih (List.cons_ne_nil _ _) (fun r hr => h r (List.mem_cons_of_mem _ hr))
        (Or.inr rfl : Blank [' ']) (n := m) (by omega)
      obtain ⟨s, s', hkey, hmark, htype⟩ := hp.reads ha hends (n := m + 1) (by omega)
      have htrim : ∀ u, trimStart ([] ++ ';' :: u) = ';' :: u := fun _ => rfl
      rw [List.nil_append] at hkey
      rw [htext, readMembers, hkey]
      simp only [Option.bind_eq_bind, Option.bind_some, hmark, htype, htrim, hothers]
      rfl

/-- Joined members begin neither with a blank nor with the closing brace. -/
theorem head_joinWith_members {parts : List (List Char × String × Bool × TypeTree)}
    (hne : parts ≠ []) (h : ∀ p, p ∈ parts → Member p.1 p.2) (rest : List Char) :
    ∃ c after, joinWith semicolon (parts.map Prod.fst) ++ rest = c :: after ∧
      isBlank c = false ∧ c ≠ '\x7d' := by
  obtain ⟨p, others, rfl⟩ := List.exists_cons_of_ne_nil hne
  have hp := h p List.mem_cons_self
  cases others with
  | nil => exact hp.head rest
  | cons q others =>
    rw [List.map_cons, List.map_cons, joinWith, List.append_assoc, List.append_assoc]
    exact hp.head _

/-- An object type with members is atomic. -/
theorem atomic_object {parts : List (List Char × String × Bool × TypeTree)} (hne : parts ≠ [])
    (h : ∀ p, p ∈ parts → Member p.1 p.2) :
    Atomic ('\x7b' :: (' ' :: (joinWith semicolon (parts.map Prod.fst) ++ [' '])) ++ ['\x7d'])
      (.object (parts.map Prod.snd)) := by
  have hpair : ('\x7b', '\x7d') ∈ brackets := by
    decide
  have hblank : isBlank '\x7b' = false := rfl
  have hjoined : Even (joinWith semicolon (parts.map Prod.fst)) := by
    refine even_joinWith (even_of_isPlain (List.all_eq_true.1 (by decide))) fun s hs => ?_
    obtain ⟨p, hp, rfl⟩ := List.mem_map.1 hs
    exact (h p hp).even
  have hone : Even [' '] := even_of_isPlain (List.all_eq_true.1 (by decide))
  have hinside : Even (' ' :: (joinWith semicolon (parts.map Prod.fst) ++ [' '])) :=
    hone.append (hjoined.append hone)
  refine ⟨reads_of_readSingle (List.cons_ne_nil _ _) fun n rest _ hn => ?_,
    hinside.bracketed hpair, unbarred_bracketed hpair hinside,
    trimmed_bracketed hblank (by decide) _⟩
  simp only [List.length_append, List.length_cons] at hn
  obtain ⟨m, rfl⟩ : ∃ m, n = m + 1 := ⟨n - 1, by omega⟩
  have hmembers := readMembers_joinWith hne h (Or.inl rfl : Blank []) (n := m) rest (by omega)
  rw [List.nil_append] at hmembers
  obtain ⟨c, after, hc, hcb, hbrace⟩ := head_joinWith_members hne h (' ' :: '\x7d' :: rest)
  rw [hc] at hmembers
  have htext : '\x7b' :: (' ' :: (joinWith semicolon (parts.map Prod.fst) ++ [' '])) ++
      ['\x7d'] ++ rest = '\x7b' :: ' ' :: c :: after := by
    rw [← hc]
    simp only [List.append_assoc, List.cons_append, List.nil_append]
  have htrim : trimStart (' ' :: c :: after) = c :: after := by
    have hone : trimStart (' ' :: c :: after) = trimStart (c :: after) := rfl
    rw [hone, trimStart_cons hcb]
  -- the blank behind the brace tells the object type from JSON, and a key follows
  have hjson : ¬('\x7b' = '[' ∨ '\x7b' = '\x7b' ∧ (' ' :: c :: after).head? = some '\x22') := by
    rintro (hj | ⟨-, hj⟩)
    · exact absurd hj (by decide)
    · exact absurd (Option.some.inj hj) (by decide)
  rw [htext, readSingle_cons hblank, if_neg (by decide), if_neg (by decide),
    if_neg hjson, if_pos rfl, ofBrace, htrim]
  split
  next he => exact absurd (List.cons.inj he).1 hbrace
  next => rw [hmembers]; rfl

end TypedClients.TypeText
