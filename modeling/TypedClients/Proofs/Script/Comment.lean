import TypedClients.Text.Pieces

/-!
# Comments in a script

A comment goes on to the first end of a comment behind its opening, wherever that stands. So a
text is one comment, whatever follows it, if the one end in it is its own.

* `ends_append_cons`: the ends in a text are counted on both sides of a character that is part
  of none.
* `isComment_iff`: a text with both marks is a comment if it holds one end.
* `ends_replacePair`: a text in which every end is escaped holds none.
-/

namespace TypedClients.Script

/-- How many times the end of a comment stands in a text. -/
def ends : List Char → Nat
  | [] => 0
  | c :: rest => ends rest + if c = '*' ∧ rest.head? = some '/' then 1 else 0

/-- What follows a comment, given the text behind its opening. -/
def afterComment : List Char → Option (List Char)
  | [] => none
  | c :: rest => if c = '*' ∧ rest.head? = some '/' then some rest.tail else afterComment rest

/-- A text that is one comment. -/
structure IsComment (s : String) : Prop where
  /-- It holds one end of a comment. -/
  once : ends s.toList = 1
  /-- It opens a comment, which ends where the text does, whatever follows. -/
  whole : ∃ inside, s.toList = '/' :: '*' :: (inside ++ ['*', '/']) ∧
    ∀ rest, afterComment (inside ++ '*' :: '/' :: rest) = some rest

/-- A part of a script. -/
inductive Portion where
  | code (text : String)
  | comment (text : String)

/-- A part as it stands in the script. -/
def Portion.text : Portion → String
  | code text => text
  | comment text => text

/-- The text of a part that is code. -/
def Portion.code? : Portion → Option String
  | code text => some text
  | comment _ => none

variable {s t : List Char} {c : Char}

/-! ## Counting -/

theorem ends_cons (h : ¬(c = '*' ∧ s.head? = some '/')) : ends (c :: s) = ends s := by
  rw [ends, if_neg h, Nat.add_zero]

theorem ends_cons_of_ne (h : c ≠ '*') (s : List Char) : ends (c :: s) = ends s :=
  ends_cons fun hand => h hand.1

theorem ends_pair (s : List Char) : ends ('*' :: '/' :: s) = ends s + 1 := rfl

/-- A character that is part of no end separates the ends on its two sides. -/
theorem ends_append_cons (hstar : c ≠ '*') (hslash : c ≠ '/') (s t : List Char) :
    ends (s ++ c :: t) = ends s + ends t := by
  induction s with
  | nil => rw [List.nil_append, ends_cons_of_ne hstar, ends, Nat.zero_add]
  | cons d s ih =>
    have hhead : (s ++ c :: t).head? = some '/' ↔ s.head? = some '/' := by
      cases s with
      | nil =>
        rw [List.nil_append, List.head?_cons, List.head?_nil, Option.some.injEq]
        exact iff_of_false hslash (Option.some_ne_none _).symm
      | cons e s => rfl
    rw [List.cons_append, ends, ih, ends]
    simp only [hhead]
    omega

theorem ends_append_of_not_mem (h : '*' ∉ s) (t : List Char) : ends (s ++ t) = ends t := by
  induction s with
  | nil => rfl
  | cons c s ih =>
    have hc : c ≠ '*' := fun e => h (e ▸ List.mem_cons_self)
    rw [List.cons_append, ends_cons_of_ne hc, ih fun hmem => h (List.mem_cons_of_mem _ hmem)]

theorem ends_of_not_mem (h : '*' ∉ s) : ends s = 0 := by
  rw [← List.append_nil s, ends_append_of_not_mem h, ends]

/-- An end behind a text is one more. -/
theorem ends_append_end (s t : List Char) : ends (s ++ '*' :: '/' :: t) = ends s + ends t + 1 := by
  induction s with
  | nil => rw [List.nil_append, ends_pair, ends, Nat.zero_add]
  | cons d s ih =>
    have hhead : (s ++ '*' :: '/' :: t).head? = some '/' ↔ s.head? = some '/' := by
      cases s with
      | nil => exact iff_of_false (by decide : some '*' ≠ some '/') (Option.some_ne_none _).symm
      | cons e s => rfl
    rw [List.cons_append, ends, ih, ends]
    simp only [hhead]
    omega

/-! ## Reading -/

/-- A comment ends at the first end behind its opening. -/
theorem afterComment_append (h : ends s = 0) (rest : List Char) :
    afterComment (s ++ '*' :: '/' :: rest) = some rest := by
  induction s with
  | nil => rfl
  | cons c s ih =>
    rw [ends, Nat.add_eq_zero_iff] at h
    have hone : ¬(c = '*' ∧ s.head? = some '/') := by
      intro hand
      rw [if_pos hand] at h
      exact absurd h.2 Nat.one_ne_zero
    have hend : ¬(c = '*' ∧ (s ++ '*' :: '/' :: rest).head? = some '/') := by
      rintro ⟨hc, hhead⟩
      cases s with
      | nil => cases hhead
      | cons d s => exact hone ⟨hc, hhead⟩
    rw [List.cons_append, afterComment, if_neg hend, ih h.1]

/-- A text that opens a comment and ends one is one comment exactly if it holds no other end. -/
theorem isComment_iff {text : String} {inside : List Char}
    (htext : text.toList = '/' :: '*' :: (inside ++ ['*', '/'])) :
    IsComment text ↔ ends text.toList = 1 := by
  refine ⟨IsComment.once, fun honce => ⟨honce, inside, htext, afterComment_append ?_⟩⟩
  rw [htext, ends_cons_of_ne (by decide), ends, ends_append_end] at honce
  omega

/-! ## Escaping -/

theorem head?_replacePair (a b : Char) (new s : List Char) :
    (Text.replacePair a b (a :: new) s).head? = s.head? := by
  unfold Text.replacePair
  split
  · split
    next h => rw [h.1]; rfl
    next => rfl
  · rfl

/-- Where a backslash is put into every end of a comment, none is left. -/
theorem ends_replacePair (s : List Char) :
    ends (Text.replacePair '*' '/' ['*', '\\', '/'] s) = 0 := by
  induction s using Text.replacePair.induct '*' '/' with
  | case1 c d rest h ih =>
    rw [Text.replacePair, if_pos h]
    simp only [List.cons_append, List.nil_append]
    rw [ends, ends_cons_of_ne (by decide), ends_cons_of_ne (by decide), ih]
    rfl
  | case2 c d rest h ih =>
    -- what follows the character begins as it did before
    have hnext : ¬(c = '*' ∧
        (Text.replacePair '*' '/' ['*', '\\', '/'] (d :: rest)).head? = some '/') := by
      rw [head?_replacePair]
      exact fun hand => h ⟨hand.1, Option.some.inj hand.2⟩
    rw [Text.replacePair, if_neg h, ends_cons hnext, ih]
  | case3 s h =>
    rw [Text.replacePair]
    · cases s with
      | nil => rfl
      | cons c rest =>
        cases rest with
        | nil => simp [ends]
        | cons d rest => exact absurd rfl (h c d rest)
    · exact h

theorem mem_of_mem_replacePair {a b : Char} {new : List Char}
    (h : c ∈ Text.replacePair a b new s) : c ∈ new ∨ c ∈ s := by
  induction s using Text.replacePair.induct a b with
  | case1 d e rest heq ih =>
    rw [Text.replacePair, if_pos heq, List.mem_append] at h
    rcases h with h | h
    · exact Or.inl h
    · exact (ih h).imp_right fun h => List.mem_cons_of_mem _ (List.mem_cons_of_mem _ h)
  | case2 d e rest hne ih =>
    rw [Text.replacePair, if_neg hne] at h
    rcases List.mem_cons.1 h with rfl | h
    · exact Or.inr List.mem_cons_self
    · exact (ih h).imp_right (List.mem_cons_of_mem _)
  | case3 s hs =>
    rw [Text.replacePair] at h
    · exact Or.inr h
    · exact hs

end TypedClients.Script
