import TypedClients.Proofs.Script.Literal

/-!
# What a template can give

A template is compared with its own text. Every step of reading it gives at most the code
units it takes, if each variable stands for its name in braces as it is written. A backslash
ahead of a backtick is how a template writes a backtick, and costs one code unit; a backslash
anywhere else is *stray*, and costs one as well. So a template whose backticks are all written
in this way gives as much as it is meant to only if it has no stray backslash.

* `template_induction`: what is kept by every step holds of every template.
* `length_evaluate_add_le`: the count of code units.
* `return_not_mem_evaluate`: a template without stray backslashes gives no carriage return.
* `isSome_name?_of_template`: in such a template a name follows wherever `$` and a brace stand
  together.
* `exists_braces_of_mem`: every name that a template reads is written between braces in it.
-/

namespace TypedClients.Script

open Naming (isIdentifier isIdentifierPart)

/-! ## Induction -/

/-- What holds of the closing backtick and the text behind it, and is kept by every step ahead
of it, holds of every template with that text behind it. -/
theorem template_induction {rest : List Char} {motive : List Char → List Part → Prop}
    (closing : motive ('\x60' :: rest) [])
    (step : ∀ {s after ps qs}, s.head? ≠ some '\x60' → Step s ps after → after ≠ [] →
      motive after qs → motive s (ps ++ qs))
    {s : List Char} {parts : List Part} (h : template.read? s = some (parts, rest)) :
    motive s parts := by
  induction hn : s.length using Nat.strongRecOn generalizing s parts with
  | ind n ih =>
    subst hn
    rcases template_cases h with ⟨rfl, rfl⟩ | ⟨ps, after, qs, hquote, hstep, hread, rfl⟩
    · exact closing
    · have hafter : after ≠ [] := by
        rintro rfl
        rw [Kind.read?] at hread
        cases hread
      exact step hquote hstep hafter (ih _ (length_of_step hstep) hread rfl)

/-! ## Stray backslashes -/

/-- Whether a text has a backslash other than those ahead of a backtick that is not its last
character. -/
def stray : List Char → Bool
  | [] => false
  | '\\' :: '\x60' :: c :: rest => stray (c :: rest)
  | c :: rest => c = '\\' || stray rest

theorem stray_cons {c : Char} (h : c ≠ '\\') (rest : List Char) :
    stray (c :: rest) = stray rest := by
  rw [stray]
  · rw [decide_eq_false h, Bool.false_or]
  · rintro d rest' rfl
    exact absurd rfl h

theorem stray_append {front : List Char} (h : '\\' ∉ front) (rest : List Char) :
    stray (front ++ rest) = stray rest := by
  induction front with
  | nil => rfl
  | cons c front ih =>
    rw [List.cons_append, stray_cons fun hc => h (hc ▸ List.mem_cons_self),
      ih fun hmem => h (List.mem_cons_of_mem _ hmem)]

theorem stray_backtick {rest : List Char} (h : rest ≠ []) :
    stray ('\\' :: '\x60' :: rest) = stray rest := by
  cases rest with
  | nil => exact absurd rfl h
  | cons c rest => rw [stray]

theorem stray_cons_of_stray {rest : List Char} (h : stray rest = true) (c : Char) :
    stray (c :: rest) = true := by
  unfold stray
  split
  next heq => cases heq
  next d tail heq =>
    cases heq
    rwa [stray_cons (by decide)] at h
  next d tail _ heq =>
    cases heq
    rw [h, Bool.or_true]

/-- A backslash is stray whatever stands ahead of it. -/
theorem stray_append_of_stray (front : List Char) {rest : List Char} (h : stray rest = true) :
    stray (front ++ rest) = true := by
  induction front with
  | nil => exact h
  | cons c front ih => exact stray_cons_of_stray ih c

/-- A backslash is stray unless a backtick follows that is not the last character. -/
theorem stray_backslash {rest : List Char} (h : rest.head? ≠ some '\x60' ∨ rest = ['\x60']) :
    stray ('\\' :: rest) = true := by
  unfold stray
  split
  next heq => cases heq
  next c tail heq =>
    cases heq
    rcases h with h | h
    · exact absurd rfl h
    · cases h
  next heq =>
    cases heq
    rfl

/-- The only escape at a backslash that is not stray is that of a backtick. -/
theorem escape_of_not_stray {rest after : List Char} {us : List UInt16}
    (h : escape? rest = some (us, after)) (hstray : stray ('\\' :: rest) = false) :
    rest = '\x60' :: after ∧ us = units '\x60' := by
  unfold stray at hstray
  split at hstray
  next heq => cases heq
  next c tail heq =>
    cases heq
    obtain ⟨rfl, rfl⟩ := Prod.mk.inj (Option.some.inj h)
    exact ⟨rfl, rfl⟩
  next heq =>
    cases heq
    cases hstray

/-! ## Counting -/

/-- The code units of a name in braces as it is written. -/
def written (n : String) : List UInt16 :=
  ('$' :: '\x7b' :: n.toList ++ ['\x7d']).flatMap units

theorem evaluate_units (env : String → List UInt16) (us : List UInt16) :
    evaluate env (us.map .unit) = us := by
  rw [evaluate, List.flatMap_map]
  exact List.flatMap_singleton' us

theorem evaluate_append (env : String → List UInt16) (ps qs : List Part) :
    evaluate env (ps ++ qs) = evaluate env ps ++ evaluate env qs := List.flatMap_append

theorem not_mem_of_isIdentifier {s : List Char} (h : isIdentifier s = true) {c : Char}
    (hc : isIdentifierPart c = false) : c ∉ s :=
  fun hmem => Bool.false_ne_true (hc.symm.trans (Naming.isIdentifierPart_of_mem h hmem))

theorem toNat_lt (c : Char) : c.toNat < 0x110000 := by
  rcases c.valid with h | h
  · exact Nat.lt_trans h (by decide)
  · exact h.2

theorem eq_of_ofNat_eq {n : Nat} {u : UInt16} (h : u = UInt16.ofNat n) (hn : n < 0x10000) :
    n = u.toNat := by
  rw [h, UInt16.toNat_ofNat', Nat.mod_eq_of_lt hn]

/-- Only the code point of a carriage return has its code unit, since the units of a pair are
halves. -/
theorem eq_of_return_mem_unitsOf {n : Nat} (hn : n < 0x110000) (h : 13 ∈ unitsOf n) : n = 13 := by
  unfold unitsOf at h
  split at h
  next hsmall => exact eq_of_ofNat_eq (List.mem_singleton.1 h) hsmall
  next hbig =>
    have h13 : (13 : UInt16).toNat = 13 := rfl
    rcases List.mem_cons.1 h with h | h
    · have := eq_of_ofNat_eq h (by omega)
      omega
    · have := eq_of_ofNat_eq (List.mem_singleton.1 h) (by omega)
      omega

/-- Only a carriage return has the code unit of one. -/
theorem eq_return_of_mem_units {c : Char} (h : 13 ∈ units c) : c = '\r' := by
  unfold units at h
  cases hhalf : Text.Surrogate.half? c with
  | some n =>
    rw [hhalf, Option.getD_some] at h
    unfold Text.Surrogate.half? at hhalf
    simp only at hhalf
    split at hhalf
    next hn =>
      obtain rfl := Option.some.inj hhalf
      simp only [Text.Surrogate.isHigh, Text.Surrogate.isLow, Bool.or_eq_true, Bool.and_eq_true,
        decide_eq_true_eq] at hn
      have hlt := toNat_lt c
      have := eq_of_return_mem_unitsOf (by omega) h
      omega
    next => cases hhalf
  | none =>
    rw [hhalf, Option.getD_none] at h
    exact Char.toNat_inj.1 (eq_of_return_mem_unitsOf (toNat_lt c) h)

theorem return_not_mem_written {n : String} (h : isIdentifier n.toList = true) :
    13 ∉ written n := by
  intro hmem
  obtain ⟨c, hc, hunits⟩ := List.mem_flatMap.1 hmem
  obtain rfl := eq_return_of_mem_units hunits
  have hn := not_mem_of_isIdentifier h (c := '\r') (by decide)
  simp [hn] at hc

/-- A step that is no escape takes neither a backslash nor a backtick and gives as many code
units as it takes at most, but no carriage return. -/
theorem plain_of_step {s after : List Char} {ps : List Part} (hquote : s.head? ≠ some '\x60')
    (h : Step s ps after) :
    (∃ rest us, s = '\\' :: rest ∧ ps = us.map .unit ∧ escape? rest = some (us, after)) ∨
      ∃ front, s = front ++ after ∧ '\\' ∉ front ∧ '\x60' ∉ front ∧
        (evaluate written ps).length ≤ (front.flatMap units).length ∧ 13 ∉ evaluate written ps := by
  cases h with
  | escape h => exact Or.inl ⟨_, _, rfl, rfl, h⟩
  | @name _ _ n h =>
    obtain ⟨rfl, hn, -⟩ := name?_eq_some h
    have hback := not_mem_of_isIdentifier hn (c := '\\') (by decide)
    have htick := not_mem_of_isIdentifier hn (c := '\x60') (by decide)
    refine Or.inr ⟨'$' :: '\x7b' :: n.toList ++ ['\x7d'], by simp, by simpa using hback,
      by simpa using htick, ?_, ?_⟩
    · exact Nat.le_of_eq (by rw [evaluate, List.flatMap_singleton, Part.value, written])
    · rw [evaluate, List.flatMap_singleton, Part.value]
      exact return_not_mem_written hn
  | @«return» front _ hfront =>
    refine Or.inr ⟨'\r' :: front, rfl, ?_⟩
    rcases hfront with rfl | rfl
    · decide
    · decide
  | @char c _ hback hreturn hdollar =>
    refine Or.inr ⟨[c], rfl, ?_, ?_, ?_, ?_⟩
    · exact fun hmem => hback (List.mem_singleton.1 hmem).symm
    · exact fun hmem => hquote (congrArg some (List.mem_singleton.1 hmem).symm)
    · exact Nat.le_of_eq (by rw [evaluate_units, List.flatMap_singleton])
    · rw [evaluate_units]
      exact fun hmem => hreturn (eq_return_of_mem_units hmem)

/-- A step gives at most the code units it takes. A backtick that it takes, and a stray
backslash, count against what it gives. -/
theorem length_evaluate_step_le {s after : List Char} {ps : List Part}
    (hquote : s.head? ≠ some '\x60') (h : Step s ps after) (hafter : after ≠ []) :
    ∃ front, s = front ++ after ∧
      (evaluate written ps).length + front.count '\x60' + (stray s).toNat ≤
        (front.flatMap units).length + (stray after).toNat := by
  rcases plain_of_step hquote h with
    ⟨rest, us, rfl, rfl, hescape⟩ | ⟨front, rfl, hback, htick, hle, -⟩
  · rw [evaluate_units]
    cases rest with
    | nil => cases hescape
    | cons c rest =>
      by_cases hc : c = '\x60'
      · subst hc
        obtain ⟨rfl, rfl⟩ := Prod.mk.inj (Option.some.inj hescape)
        refine ⟨['\\', '\x60'], rfl, ?_⟩
        rw [stray_backtick hafter]
        exact Nat.le_refl _
      · obtain ⟨c', front, hrest, hfront, hle⟩ := escape?_eq_some hescape
        obtain ⟨rfl, rfl⟩ := List.cons.inj hrest
        refine ⟨'\\' :: c :: front, rfl, ?_⟩
        have hcount : ('\\' :: c :: front).count '\x60' = 0 := by
          rw [List.count_eq_zero, List.mem_cons, List.mem_cons, not_or, not_or]
          exact ⟨by decide, Ne.symm hc, hfront⟩
        have hone : (units '\\').length = 1 := rfl
        rw [hcount, List.flatMap_cons, List.length_append, hone]
        have hstray := Bool.toNat_le (stray ('\\' :: c :: front.append after))
        omega
  · refine ⟨front, rfl, ?_⟩
    rw [List.count_eq_zero.2 htick, stray_append hback]
    omega

/-- A template gives at most the code units of its text, and fewer if it has a stray backslash. -/
theorem length_evaluate_add_le {s : List Char} {parts : List Part}
    (h : template.read? s = some (parts, [])) :
    (evaluate written parts).length + s.count '\x60' + (stray s).toNat ≤
      (s.flatMap units).length := by
  refine template_induction (motive := fun s parts =>
    (evaluate written parts).length + s.count '\x60' + (stray s).toNat ≤ (s.flatMap units).length)
    (by decide) ?_ h
  intro s after ps qs hquote hstep hafter ih
  obtain ⟨front, rfl, hle⟩ := length_evaluate_step_le hquote hstep hafter
  rw [evaluate_append, List.length_append, List.count_append, List.flatMap_append,
    List.length_append]
  omega

/-! ## Without stray backslashes -/

theorem not_stray_of_step {s after : List Char} {ps : List Part} (hquote : s.head? ≠ some '\x60')
    (h : Step s ps after) (hafter : after ≠ []) (hstray : stray s = false) :
    stray after = false := by
  rcases plain_of_step hquote h with ⟨rest, us, rfl, rfl, hescape⟩ | ⟨front, rfl, hback, -⟩
  · obtain ⟨rfl, -⟩ := escape_of_not_stray hescape hstray
    rwa [stray_backtick hafter] at hstray
  · rwa [stray_append hback] at hstray

/-- A template without stray backslashes gives no carriage return, unless a variable does. -/
theorem return_not_mem_evaluate {s : List Char} {parts : List Part}
    (h : template.read? s = some (parts, [])) (hstray : stray s = false) :
    13 ∉ evaluate written parts := by
  refine template_induction (motive := fun s parts =>
    stray s = false → 13 ∉ evaluate written parts) (fun _ => by decide) ?_ h hstray
  intro s after ps qs hquote hstep hafter ih hstray
  rw [evaluate_append, List.mem_append, not_or]
  refine ⟨?_, ih (not_stray_of_step hquote hstep hafter hstray)⟩
  rcases plain_of_step hquote hstep with ⟨rest, us, rfl, rfl, h⟩ | ⟨front, -, -, -, -, hps⟩
  · obtain ⟨-, rfl⟩ := escape_of_not_stray h hstray
    rw [evaluate_units]
    decide
  · exact hps

/-- A character stands either behind the front of a text or in it. -/
theorem append_eq_append_cons {front after p q : List Char} {c : Char}
    (h : front ++ after = p ++ c :: q) :
    (∃ p', after = p' ++ c :: q) ∨ ∃ back, front = p ++ c :: back ∧ q = back ++ after := by
  rcases List.append_eq_append_iff.1 h with ⟨p', -, hafter⟩ | ⟨back, hfront, hq⟩
  · exact Or.inl ⟨p', hafter⟩
  · cases back with
    | nil => exact Or.inl ⟨[], hq.symm⟩
    | cons d back =>
      obtain ⟨rfl, rfl⟩ := List.cons.inj hq
      exact Or.inr ⟨back, hfront, rfl⟩

/-- A name in braces has no second `$` with a brace in it. -/
theorem nil_or_of_braces {n p q after : List Char} (hn : isIdentifier n = true)
    (h : '$' :: '\x7b' :: (n ++ '\x7d' :: after) = p ++ '$' :: '\x7b' :: q) :
    p = [] ∨ ∃ p', after = p' ++ '$' :: '\x7b' :: q := by
  have hsplit : '$' :: '\x7b' :: (n ++ ['\x7d']) ++ after = p ++ '$' :: '\x7b' :: q := by
    rw [List.append_cons] at h
    exact h
  rcases append_eq_append_cons hsplit with hafter | ⟨back, hfront, hq⟩
  · exact Or.inr hafter
  · refine Or.inl ?_
    cases p with
    | nil => rfl
    | cons c p =>
      -- what follows a dollar of the name is in the name or is the closing brace
      have hrest : '\x7b' :: (n ++ ['\x7d']) = p ++ '$' :: back := (List.cons.inj hfront).2
      cases p with
      | nil => cases hrest
      | cons d p =>
        have hname : n ++ ['\x7d'] = p ++ '$' :: back := (List.cons.inj hrest).2
        cases back with
        | nil => exact absurd (List.append_inj' hname rfl).2 (by decide)
        | cons e back =>
          obtain ⟨rfl, -⟩ := List.cons.inj hq
          have hmem : '\x7b' ∈ n ++ ['\x7d'] := by
            rw [hname]
            exact List.mem_append_right _ (List.mem_cons_of_mem _ List.mem_cons_self)
          rcases List.mem_append.1 hmem with hmem | hmem
          · exact absurd hmem (not_mem_of_isIdentifier hn (by decide))
          · exact absurd hmem (by decide)

/-- In what a step takes of a template without stray backslashes, a name follows `$` and a
brace. -/
theorem isSome_name?_of_step {s after p q : List Char} {ps : List Part} (h : Step s ps after)
    (hstray : stray s = false) (hs : s = p ++ '$' :: '\x7b' :: q) :
    (name? q).isSome = true ∨ ∃ p', after = p' ++ '$' :: '\x7b' :: q := by
  -- no dollar is in an escape or a line break
  have key : ∀ front, '$' ∉ front → s = front ++ after →
    ∃ p', after = p' ++ '$' :: '\x7b' :: q := by
    rintro front hfront rfl
    rcases append_eq_append_cons hs with hafter | ⟨back, rfl, -⟩
    · exact hafter
    · exact absurd (List.mem_append_right _ List.mem_cons_self) hfront
  cases h with
  | @escape rest _ us h =>
    obtain ⟨rfl, rfl⟩ := escape_of_not_stray h hstray
    exact Or.inr (key ['\\', '\x60'] (by decide) rfl)
  | @name rest _ n hname =>
    obtain ⟨rfl, hn, -⟩ := name?_eq_some hname
    rcases nil_or_of_braces hn hs with rfl | hafter
    · obtain ⟨-, hs⟩ := List.cons.inj hs
      obtain ⟨-, rfl⟩ := List.cons.inj hs
      exact Or.inl (by rw [hname, Option.isSome_some])
    · exact Or.inr hafter
  | @«return» front _ hfront =>
    refine Or.inr (key ('\r' :: front) ?_ rfl)
    rcases hfront with rfl | rfl
    · decide
    · decide
  | @char c _ _ _ hdollar =>
    cases p with
    | nil =>
      obtain ⟨rfl, rfl⟩ := List.cons.inj hs
      exact absurd rfl (hdollar rfl)
    | cons d p => exact Or.inr ⟨p, (List.cons.inj hs).2⟩

/-- In a template without stray backslashes a name follows wherever `$` and a brace stand
together. -/
theorem isSome_name?_of_template {s : List Char} {parts : List Part}
    (h : template.read? s = some (parts, [])) (hstray : stray s = false) {p q : List Char}
    (hs : s = p ++ '$' :: '\x7b' :: q) : (name? q).isSome = true := by
  refine template_induction (motive := fun s _ => stray s = false →
    ∀ p, s = p ++ '$' :: '\x7b' :: q → (name? q).isSome = true) ?_ ?_ h hstray p hs
  · intro _ p hp
    have hmem : '$' ∈ ['\x60'] := hp ▸ List.mem_append_right _ List.mem_cons_self
    exact absurd hmem (by decide)
  · intro s after ps qs hquote hstep hafter ih hstray p hs
    rcases isSome_name?_of_step hstep hstray hs with hname | ⟨p', hp'⟩
    · exact hname
    · exact ih (not_stray_of_step hquote hstep hafter hstray) p' hp'

/-! ## Names -/

/-- Every name that a template reads is written between braces in it. -/
theorem exists_braces_of_mem {s rest : List Char} {parts : List Part}
    (h : template.read? s = some (parts, rest)) {n : String} (hn : .name n ∈ parts) :
    ∃ p q, s = p ++ '$' :: '\x7b' :: (n.toList ++ '\x7d' :: q) ∧ isIdentifier n.toList = true := by
  refine template_induction (motive := fun s parts => .name n ∈ parts →
    ∃ p q, s = p ++ '$' :: '\x7b' :: (n.toList ++ '\x7d' :: q) ∧ isIdentifier n.toList = true)
    (fun h => absurd h List.not_mem_nil) ?_ h hn
  intro s after ps qs hquote hstep hafter ih hn
  rcases List.mem_append.1 hn with hn | hn
  · cases hstep with
    | escape =>
      obtain ⟨u, -, hu⟩ := List.mem_map.1 hn
      cases hu
    | name hname =>
      obtain rfl := Part.name.inj (List.mem_singleton.1 hn)
      obtain ⟨rfl, hidentifier, -⟩ := name?_eq_some hname
      exact ⟨[], after, rfl, hidentifier⟩
    | «return» => cases List.mem_singleton.1 hn
    | char =>
      obtain ⟨u, -, hu⟩ := List.mem_map.1 hn
      cases hu
  · obtain ⟨p, q, rfl, hidentifier⟩ := ih hn
    obtain ⟨c, front, rfl⟩ := exists_front_of_step hstep
    exact ⟨c :: front ++ p, q, (List.append_assoc _ _ _).symm, hidentifier⟩

/-! ## The end -/

/-- A text whose only backslashes stand ahead of backticks, and in which only the backtick at
the end has none ahead of it. -/
inductive Closed : List Char → Prop
  /-- The closing backtick. -/
  | closing : Closed ['\x60']
  /-- A backtick with its backslash. -/
  | backtick {s : List Char} (h : Closed s) : Closed ('\\' :: '\x60' :: s)
  /-- Any other character. -/
  | char {c : Char} {s : List Char} (hback : c ≠ '\\') (htick : c ≠ '\x60') (h : Closed s) :
      Closed (c :: s)

theorem Closed.append {front s : List Char} (h : Closed s) (hback : '\\' ∉ front)
    (htick : '\x60' ∉ front) : Closed (front ++ s) := by
  induction front with
  | nil => exact h
  | cons c front ih =>
    refine .char (fun hc => hback (hc ▸ List.mem_cons_self))
      (fun hc => htick (hc ▸ List.mem_cons_self))
      (ih (fun hmem => hback (List.mem_cons_of_mem _ hmem)) fun hmem =>
        htick (List.mem_cons_of_mem _ hmem))

theorem Closed.tail {c : Char} {s : List Char} (h : Closed (c :: s)) (hback : c ≠ '\\')
    (htick : c ≠ '\x60') : Closed s := by
  cases h with
  | closing => exact absurd rfl htick
  | backtick => exact absurd rfl hback
  | char _ _ h => exact h

theorem Closed.of_append {front s : List Char} (h : Closed (front ++ s)) (hback : '\\' ∉ front)
    (htick : '\x60' ∉ front) : Closed s := by
  induction front with
  | nil => exact h
  | cons c front ih =>
    refine ih (Closed.tail h ?_ ?_) (fun hmem => hback (List.mem_cons_of_mem _ hmem))
      fun hmem => htick (List.mem_cons_of_mem _ hmem)
    · exact fun hc => hback (hc ▸ List.mem_cons_self)
    · exact fun hc => htick (hc ▸ List.mem_cons_self)

theorem Closed.of_step {s after : List Char} {ps : List Part} (h : Closed s)
    (hquote : s.head? ≠ some '\x60') (hstep : Step s ps after) : Closed after := by
  rcases plain_of_step hquote hstep with ⟨rest, us, rfl, -, hescape⟩ | ⟨front, rfl, hback, htick, -⟩
  · cases h with
    | backtick h =>
      obtain ⟨-, rfl⟩ := Prod.mk.inj (Option.some.inj hescape)
      exact h
    | char hback => exact absurd rfl hback
  · exact h.of_append hback htick

/-- A template ends with such a text, and not before. -/
theorem rest_eq_nil_of_closed {s rest : List Char} {parts : List Part} (hs : Closed s)
    (h : template.read? s = some (parts, rest)) : rest = [] := by
  refine template_induction (motive := fun s _ => Closed s → rest = []) ?_ ?_ h hs
  · intro hclosed
    cases hclosed with
    | closing => rfl
    | char _ htick => exact absurd rfl htick
  · intro s after ps qs hquote hstep _ ih hclosed
    exact ih (hclosed.of_step hquote hstep)

end TypedClients.Script
