import TypedClients.Proofs.TypeText.Atoms

/-!
# Unions and intersections as they are read

An intersection is written as atomic texts with ampersands between them, a union as
intersections with bars between them. `Operands` and `Alternatives` say so, and the reader
takes such texts apart again (`Operands.reads`, `Alternatives.reads`) wherever they end.
-/

namespace TypedClients.TypeText

open Text (isBlank trimStart joinWith joinWith_append)
open TypeTree (interOf unionOf)

/-! ## Where a type ends -/

/-- A text that goes on neither with `[]` nor with one of some operators. -/
structure Ends (operators : List Char) (rest : List Char) : Prop where
  stops : Stops rest
  arrays : ∀ τ, arrays τ rest = (τ, rest)
  free : ∀ c after, trimStart rest = c :: after → c ∉ operators

theorem ends_nil (operators : List Char) : Ends operators [] :=
  ⟨fun _ hc => (nomatch hc), fun _ => rfl, fun _ _ h => (nomatch h)⟩

/-- A character that ends a type. -/
def isEnd (c : Char) : Bool :=
  c = ')' || c = '>' || c = ';' || c = '\x7d' || c = '|' || c = '&'

theorem ends_append {operators a : List Char} (ha : Blank a) {c : Char} (hc : isEnd c = true)
    (ho : c ∉ operators) (rest : List Char) : Ends operators (a ++ c :: rest) := by
  have hfacts : isBlank c = false ∧ isWordPart c = false ∧ c ≠ '<' ∧ c ≠ '[' := by
    simp only [isEnd, Bool.or_eq_true, decide_eq_true_eq] at hc
    rcases hc with ((((rfl | rfl) | rfl) | rfl) | rfl) | rfl
    all_goals decide
  obtain ⟨hblank, hword, hangle, hbracket⟩ := hfacts
  have htrim : trimStart (a ++ c :: rest) = c :: rest := by
    rw [trimStart_blank_append ha, trimStart_cons hblank]
  refine ⟨?_, ?_, ?_⟩
  · intro d hd
    rcases ha with rfl | rfl
    · obtain rfl : c = d := Option.some.inj hd
      exact ⟨hword, hangle⟩
    · obtain rfl : ' ' = d := Option.some.inj hd
      decide
  · intro τ
    rcases ha with rfl | rfl
    · rw [List.nil_append, TypeText.arrays]
      intro _ he
      exact absurd (List.cons.inj he).1 hbracket
    · rfl
  · intro d after hd
    rw [htrim] at hd
    exact (List.cons.inj hd).1 ▸ ho

/-! ## Chains -/

section Chain

variable {operator : Char} {node : TypeTree → TypeTree → TypeTree}
  {first others : List Char → Option (TypeTree × List Char)} {s rest rest' : List Char}
  {a b : TypeTree}

theorem chain_last (h : first s = some (a, rest))
    (hfree : ∀ c after, trimStart rest = c :: after → c ≠ operator) :
    chain operator node first others s = some (a, rest) := by
  rw [chain, h]
  simp only [Option.bind_eq_bind, Option.bind_some]
  cases ht : trimStart rest with
  | nil => rfl
  | cons c after => exact if_neg (hfree c after ht)

theorem chain_more {after : List Char} (h : first s = some (a, rest))
    (ht : trimStart rest = operator :: after) (h' : others after = some (b, rest')) :
    chain operator node first others s = some (node a b, rest') := by
  rw [chain, h]
  simp only [Option.bind_eq_bind, Option.bind_some, ht, if_pos, h']
  rfl

end Chain

theorem readSingle_blank (n : Nat) (s : List Char) :
    readSingle n (' ' :: s) = readSingle n s := by
  have htrim : trimStart (' ' :: s) = trimStart s := rfl
  cases n with
  | zero => rfl
  | succ n => rw [readSingle, readSingle, htrim]

theorem readPostfix_blank (n : Nat) (s : List Char) :
    readPostfix n (' ' :: s) = readPostfix n s := by
  cases n with
  | zero => rfl
  | succ n => rw [readPostfix, readPostfix, readSingle_blank]

theorem readInter_blank (n : Nat) (s : List Char) : readInter n (' ' :: s) = readInter n s := by
  cases n with
  | zero => rfl
  | succ n => rw [readInter, readInter, chain, chain, readPostfix_blank]

/-- A blank in front of a type is read over. -/
theorem readUnion_blank (n : Nat) (s : List Char) : readUnion n (' ' :: s) = readUnion n s := by
  cases n with
  | zero => rfl
  | succ n => rw [readUnion, readUnion, chain, chain, readInter_blank]

/-! ## Joined texts -/

theorem even_joinWith {sep : List Char} (hsep : Even sep) {ts : List (List Char)}
    (h : ∀ t, t ∈ ts → Even t) : Even (joinWith sep ts) := by
  induction ts using Text.joinWith.induct with
  | case1 => exact even_of_isPlain fun c hc => absurd hc List.not_mem_nil
  | case2 t => exact h t List.mem_cons_self
  | case3 t u rest ih =>
    rw [joinWith]
    exact ((h t List.mem_cons_self).append hsep).append
      (ih fun v hv => h v (List.mem_cons_of_mem _ hv))

theorem unbarred_joinWith {sep : List Char} (hsep : Even sep) (hsep' : Unbarred sep)
    {ts : List (List Char)} (h : ∀ t, t ∈ ts → Even t ∧ Unbarred t) :
    Unbarred (joinWith sep ts) := by
  induction ts using Text.joinWith.induct with
  | case1 =>
    have hnil : ∀ c, c ∈ ([] : List Char) → isPlain c = true :=
      fun c hc => absurd hc List.not_mem_nil
    exact unbarred_of_isPlain hnil List.not_mem_nil
  | case2 t => exact (h t List.mem_cons_self).2
  | case3 t u rest ih =>
    obtain ⟨heven, hbar⟩ := h t List.mem_cons_self
    rw [joinWith]
    exact (hbar.append heven hsep').append (heven.append hsep)
      (ih fun v hv => h v (List.mem_cons_of_mem _ hv))

theorem trimmed_joinWith (sep : List Char) {ts : List (List Char)} (hne : ts ≠ [])
    (h : ∀ t, t ∈ ts → Trimmed t) : Trimmed (joinWith sep ts) := by
  induction ts using Text.joinWith.induct with
  | case1 => exact absurd rfl hne
  | case2 t => exact h t List.mem_cons_self
  | case3 t u rest ih =>
    have hrest := ih (List.cons_ne_nil _ _) fun v hv => h v (List.mem_cons_of_mem _ hv)
    obtain ⟨c, hc, hcb⟩ := (h t List.mem_cons_self).head
    obtain ⟨d, hd, hdb⟩ := hrest.last
    refine ⟨⟨c, ?_, hcb⟩, ⟨d, ?_, hdb⟩⟩
    · rw [joinWith, List.append_assoc, List.head?_append, hc]
      rfl
    · rw [joinWith, List.getLast?_append, hd]
      rfl

theorem Ends.weaken {operators : List Char} {operator : Char} {rest : List Char}
    (h : Ends (operator :: operators) rest) : Ends operators rest :=
  ⟨h.stops, h.arrays, fun c after hc hmem => h.free c after hc (List.mem_cons_of_mem _ hmem)⟩

/-- A reader that chains what another one reads takes joined texts apart, if the other one
reads each of them. `below` are the operators that the other reader goes on with. -/
theorem reads_joinWith {operator : Char} {node : TypeTree → TypeTree → TypeTree}
    {tree : List TypeTree → TypeTree}
    {lower reader : Nat → List Char → Option (TypeTree × List Char)} {below : List Char} {k : Nat}
    (hone : ∀ a, tree [a] = a) (hmore : ∀ a b l, tree (a :: b :: l) = node a (tree (b :: l)))
    (hstep : ∀ n s, reader (n + 1) s = chain operator node (lower n) (reader n) s)
    (hblank : ∀ n s, reader n (' ' :: s) = reader n s) (hend : isEnd operator = true)
    (hbelow : operator ∉ below) {parts : List (List Char × TypeTree)} (hne : parts ≠ [])
    (hparts : ∀ p, p ∈ parts → ∀ n rest, Ends below rest → 4 * p.1.length + k ≤ n →
      lower n (p.1 ++ rest) = some (p.2, rest)) {n : Nat} {rest : List Char}
    (hrest : Ends (operator :: below) rest)
    (hn : 4 * (joinWith (around operator) (parts.map Prod.fst)).length + (k + 1) ≤ n) :
    reader n (joinWith (around operator) (parts.map Prod.fst) ++ rest) =
      some (tree (parts.map Prod.snd), rest) := by
  induction parts generalizing n with
  | nil => exact absurd rfl hne
  | cons p others ih =>
    obtain ⟨m, rfl⟩ : ∃ m, n = m + 1 := ⟨n - 1, by omega⟩
    have hp := hparts p List.mem_cons_self
    cases others with
    | nil =>
      have hlength : (joinWith (around operator) ([p].map Prod.fst)).length = p.1.length := rfl
      rw [hlength] at hn
      rw [hstep, List.map_singleton, List.map_singleton, hone]
      -- the last part: no operator follows
      refine chain_last (hp m rest hrest.weaken (by omega)) fun c after hc e => ?_
      exact hrest.free c after hc (e ▸ List.mem_cons_self)
    | cons q others =>
      -- another part follows: its operator ends this one and begins the rest
      have htext : joinWith (around operator) ((p :: q :: others).map Prod.fst) ++ rest =
          p.1 ++ ([' '] ++ operator :: (' ' ::
            (joinWith (around operator) ((q :: others).map Prod.fst) ++ rest))) := by
        simp only [List.map_cons, joinWith, around, List.append_assoc, List.cons_append,
          List.nil_append]
      have hlength : (joinWith (around operator) ((p :: q :: others).map Prod.fst)).length =
          p.1.length + 3 + (joinWith (around operator) ((q :: others).map Prod.fst)).length := by
        simp only [List.map_cons, joinWith, around, List.length_append, List.length_cons,
          List.length_nil]
      rw [hlength] at hn
      have hends : Ends below ([' '] ++ operator :: (' ' ::
          (joinWith (around operator) ((q :: others).map Prod.fst) ++ rest))) :=
        ends_append (Or.inr rfl) hend hbelow _
      have hothers := ih (List.cons_ne_nil _ _) (fun r hr => hparts r (List.mem_cons_of_mem _ hr))
        (n := m) (by omega)
      have hnot : isBlank operator = false := by
        simp only [isEnd, Bool.or_eq_true, decide_eq_true_eq] at hend
        rcases hend with ((((rfl | rfl) | rfl) | rfl) | rfl) | rfl
        all_goals decide
      have htrim : ∀ s, trimStart ([' '] ++ operator :: s) = operator :: s := by
        intro s
        rw [trimStart_blank_append (Or.inr rfl), trimStart_cons hnot]
      have htree : tree ((p :: q :: others).map Prod.snd) =
          node p.2 (tree ((q :: others).map Prod.snd)) := hmore _ _ _
      rw [htext, hstep, htree]
      refine chain_more (hp m _ hends (by omega)) (htrim _) ?_
      rw [hblank]
      exact hothers

/-! ## Intersections and unions -/

/-- A text that is a part, or several parts with an operator between them; `tree` puts their types
together. -/
def Joined (operator : Char) (tree : List TypeTree → TypeTree)
    (part : List Char → TypeTree → Prop) (t : List Char) (τ : TypeTree) : Prop :=
  ∃ parts : List (List Char × TypeTree), parts ≠ [] ∧ (∀ p, p ∈ parts → part p.1 p.2) ∧
    t = joinWith (around operator) (parts.map Prod.fst) ∧ τ = tree (parts.map Prod.snd)

/-- A text that is an intersection of atomic texts, or one of them. -/
def Operands : List Char → TypeTree → Prop := Joined '&' interOf Atomic

/-- A text that is a union of intersections, or one of them. -/
def Alternatives : List Char → TypeTree → Prop := Joined '|' unionOf Operands

section Joined

variable {operator : Char} {tree : List TypeTree → TypeTree} {part : List Char → TypeTree → Prop}
  {t u : List Char} {τ υ : TypeTree}

theorem joined_of_part (hone : tree [τ] = τ) (h : part t τ) : Joined operator tree part t τ := by
  refine ⟨[(t, τ)], List.cons_ne_nil _ _, ?_, rfl, hone.symm⟩
  intro p hp
  rw [List.mem_singleton.1 hp]
  exact h

/-- Two joined texts with the operator between them are a joined text. -/
theorem Joined.append {node : TypeTree → TypeTree → TypeTree}
    (htree : ∀ {l l' : List TypeTree}, l ≠ [] → l' ≠ [] →
      (tree (l ++ l')).Same (node (tree l) (tree l')))
    (h : Joined operator tree part t τ) (h' : Joined operator tree part u υ) :
    ∃ ω, Joined operator tree part (t ++ (around operator ++ u)) ω ∧ ω.Same (node τ υ) := by
  obtain ⟨parts, hne, hparts, rfl, rfl⟩ := h
  obtain ⟨parts', hne', hparts', rfl, rfl⟩ := h'
  have hmap : ∀ {β : Type} (f : List Char × TypeTree → β), parts.map f ≠ [] ∧ parts'.map f ≠ [] :=
    fun f => ⟨fun e => hne (List.map_eq_nil_iff.1 e), fun e => hne' (List.map_eq_nil_iff.1 e)⟩
  refine ⟨tree ((parts ++ parts').map Prod.snd), ⟨parts ++ parts', ?_, ?_, ?_, rfl⟩, ?_⟩
  · exact fun e => hne (List.append_eq_nil_iff.1 e).1
  · exact fun p hp => (List.mem_append.1 hp).elim (hparts p) (hparts' p)
  · rw [List.map_append, joinWith_append _ (hmap _).1 (hmap _).2]
  · rw [List.map_append]
    exact htree (hmap _).1 (hmap _).2

end Joined

variable {t : List Char} {τ : TypeTree}

theorem Atomic.operands (h : Atomic t τ) : Operands t τ := joined_of_part rfl h

theorem Operands.alternatives (h : Operands t τ) : Alternatives t τ := joined_of_part rfl h

theorem Operands.reads (h : Operands t τ) {n : Nat} {rest : List Char} (hrest : Ends ['&'] rest)
    (hn : 4 * t.length + 2 ≤ n) : readInter n (t ++ rest) = some (τ, rest) := by
  obtain ⟨parts, hne, hparts, rfl, rfl⟩ := h
  have hlower : ∀ p, p ∈ parts → ∀ n rest, Ends [] rest → 4 * p.1.length + 1 ≤ n →
      readPostfix n (p.1 ++ rest) = some (p.2, rest) := by
    intro p hp n rest hrest hn
    rw [(hparts p hp).reads n rest hrest.stops hn, hrest.arrays]
  have hstep : ∀ n s, readInter (n + 1) s = chain '&' .inter (readPostfix n) (readInter n) s := by
    intro n s
    rw [readInter]
  exact reads_joinWith (fun _ => rfl) (fun _ _ _ => rfl) hstep readInter_blank rfl List.not_mem_nil
    hne hlower hrest hn

theorem Alternatives.reads (h : Alternatives t τ) {n : Nat} {rest : List Char}
    (hrest : Ends ['|', '&'] rest) (hn : 4 * t.length + 3 ≤ n) :
    readUnion n (t ++ rest) = some (τ, rest) := by
  obtain ⟨parts, hne, hparts, rfl, rfl⟩ := h
  have hlower : ∀ p, p ∈ parts → ∀ n rest, Ends ['&'] rest → 4 * p.1.length + 2 ≤ n →
      readInter n (p.1 ++ rest) = some (p.2, rest) := by
    intro p hp n rest hrest hn
    exact (hparts p hp).reads hrest hn
  have hstep : ∀ n s, readUnion (n + 1) s = chain '|' .union (readInter n) (readUnion n) s := by
    intro n s
    rw [readUnion]
  exact reads_joinWith (fun _ => rfl) (fun _ _ _ => rfl) hstep readUnion_blank rfl (by decide)
    hne hlower hrest hn

end TypedClients.TypeText
