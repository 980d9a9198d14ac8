import Mathlib.Data.List.DropRight
import Mathlib.Data.List.Infix
import TypedClients.Proofs.TypeText.Atoms
import TypedClients.Writing.FileText

/-!
# The normal form of generated files

The text of a file is *tidied*: runs of line ends are cut, and the blanks around the text are
taken away. Cutting is the identity exactly on texts without long runs
(`limitBreaks_eq_self_iff`), and of a text that begins and ends with other characters than
blanks it takes nothing but line ends. So the header stays as it is in front, the body loses
line ends and the blanks at its end, and nothing is left to be tidied once the last line has
got its end.

* `sparse_limitBreaks`: what is cut has no long run.
* `filter_trimEnd_limitBreaks`: cutting and trimming leave what is no line end of a trimmed text.
* `fileText_in_normal_form`: the text of a file, and tidying it again.
-/

namespace TypedClients.Writing

open Text (isBlank trim trimEnd trimStart)
open TypeText (Trimmed)

variable {s t : List Char}

/-! ## Runs of line ends -/

/-- No more line ends follow one another than are allowed. -/
def Sparse (s : List Char) : Prop := ¬List.replicate (maxBreaks + 1) '\n' <:+: s

theorem Sparse.of_front (h : Sparse t) (hfront : s <+: t) : Sparse s :=
  fun hrun => h (hrun.trans hfront.isInfix)

/-- The run of line ends that is kept at the end of a text, with one of length `seen` before
the text. -/
def runAfter (seen : Nat) (s : List Char) : Nat :=
  s.foldl (fun run c => if c = '\n' then min (run + 1) maxBreaks else 0) seen

theorem runAfter_concat {c : Char} (hc : c ≠ '\n') (seen : Nat) (s : List Char) :
    runAfter seen (s ++ [c]) = 0 := by
  rw [runAfter, List.foldl_append, List.foldl_cons, List.foldl_nil, if_neg hc]

theorem limitBreaks_append {seen : Nat} (hseen : seen ≤ maxBreaks) (s t : List Char) :
    limitBreaks seen (s ++ t) = limitBreaks seen s ++ limitBreaks (runAfter seen s) t := by
  induction s generalizing seen with
  | nil => rfl
  | cons c s ih =>
    rw [List.cons_append, limitBreaks, limitBreaks, runAfter, List.foldl_cons]
    by_cases hc : c = '\n'
    · rw [if_pos hc, if_pos hc, if_pos hc]
      by_cases hlt : seen < maxBreaks
      · rw [if_pos hlt, if_pos hlt, Nat.min_eq_left hlt, ih hlt]
        rfl
      · have hfull : min (seen + 1) maxBreaks = seen := by omega
        rw [if_neg hlt, if_neg hlt, hfull, ih hseen]
        rfl
    · rw [if_neg hc, if_neg hc, if_neg hc, ih (Nat.zero_le _)]
      rfl

/-- A run of one character lies on one side of another character. -/
theorem infix_of_infix_append_cons {run front rest : List Char} {c : Char}
    (h : run <:+: front ++ c :: rest) (hc : c ∉ run) : run <:+: front ∨ run <:+: rest := by
  obtain ⟨before, after, heq⟩ := h
  rw [List.append_assoc] at heq
  rcases List.append_eq_append_iff.1 heq with ⟨front', hfront, hrest⟩ | ⟨before', hbefore, hrest⟩
  · rcases List.append_eq_append_iff.1 hrest with ⟨run', hrun, htail⟩ | ⟨run', hrun, htail⟩
    · exact Or.inl ⟨before, run', by rw [hfront, hrun, List.append_assoc]⟩
    · cases run' with
      | nil =>
        rw [List.append_nil] at hrun
        exact Or.inl ⟨before, [], by rw [hfront, hrun, List.append_nil]⟩
      | cons d run' =>
        obtain ⟨rfl, -⟩ := List.cons.inj htail
        exact absurd (hrun ▸ List.mem_append_right _ List.mem_cons_self) hc
  · cases before' with
    | nil =>
      cases run with
      | nil => exact Or.inl (List.nil_infix)
      | cons d run =>
        obtain ⟨rfl, -⟩ := List.cons.inj hrest
        exact absurd List.mem_cons_self hc
    | cons d before' =>
      rw [List.cons_append] at hrest
      exact Or.inr ⟨before', after, by rw [(List.cons.inj hrest).2, List.append_assoc]⟩

/-- What is cut has no long run, together with the line ends before it. -/
theorem sparse_limitBreaks {seen : Nat} (hseen : seen ≤ maxBreaks) (s : List Char) :
    Sparse (List.replicate seen '\n' ++ limitBreaks seen s) := by
  induction s generalizing seen with
  | nil =>
    rw [limitBreaks, List.append_nil]
    intro hrun
    have hlength := hrun.length_le
    rw [List.length_replicate, List.length_replicate] at hlength
    omega
  | cons c s ih =>
    rw [limitBreaks]
    by_cases hc : c = '\n'
    · rw [if_pos hc]
      by_cases hlt : seen < maxBreaks
      · rw [if_pos hlt, hc, List.append_cons, ← List.replicate_succ']
        exact ih hlt
      · rw [if_neg hlt]
        exact ih hseen
    -- another character ends the run before it, and no run passes it
    · rw [if_neg hc]
      intro hrun
      have hmem : c ∉ List.replicate (maxBreaks + 1) '\n' :=
        fun h => hc (List.eq_of_mem_replicate h)
      rcases infix_of_infix_append_cons hrun hmem with hfront | hrest
      · have hlength := hfront.length_le
        rw [List.length_replicate, List.length_replicate] at hlength
        omega
      · exact ih (Nat.zero_le _) hrest

/-- Cutting leaves exactly the texts as they are that have no long run. -/
theorem limitBreaks_eq_self_iff : limitBreaks 0 s = s ↔ Sparse s := by
  constructor
  · intro h
    have hsparse := sparse_limitBreaks (Nat.zero_le maxBreaks) s
    rw [h] at hsparse
    exact hsparse
  · -- with the line ends before it, of which `seen` counts, the text has no long run either
    suffices hrun : ∀ seen, Sparse (List.replicate seen '\n' ++ s) → limitBreaks seen s = s from
      fun h => hrun 0 h
    induction s with
    | nil => exact fun _ _ => rfl
    | cons c s ih =>
      intro seen h
      rw [limitBreaks]
      by_cases hc : c = '\n'
      · have hnext : List.replicate seen '\n' ++ c :: s = List.replicate (seen + 1) '\n' ++ s := by
          rw [hc, List.append_cons, ← List.replicate_succ']
        rw [hnext] at h
        have hlt : seen < maxBreaks := by
          by_contra hge
          refine h (List.IsInfix.trans ?_ (List.prefix_append _ s).isInfix)
          obtain ⟨more, hmore⟩ := Nat.exists_eq_add_of_le (Nat.not_lt.1 hge)
          refine ⟨[], List.replicate more '\n', ?_⟩
          rw [List.nil_append, List.replicate_append_replicate, hmore]
          congr 1
          omega
        rw [if_pos hc, if_pos hlt, ih (seen + 1) h]
      · have hrest : Sparse s := fun hrun =>
          h (hrun.trans ⟨List.replicate seen '\n' ++ [c], [], by simp⟩)
        rw [if_neg hc, ih 0 hrest]

/-! ## What is left -/

/-- Only line ends are cut. -/
theorem filter_limitBreaks (seen : Nat) (s : List Char) :
    (limitBreaks seen s).filter (· ≠ '\n') = s.filter (· ≠ '\n') := by
  induction s generalizing seen with
  | nil => rfl
  | cons c s ih =>
    rw [limitBreaks]
    split
    next hc =>
      split
      · rw [List.filter_cons, List.filter_cons, ih]
      · rw [ih, List.filter_cons, if_neg (by simp [hc])]
    next => rw [List.filter_cons, List.filter_cons, ih]

/-- Taking away what is not kept anyway comes to the same before and after a filter. -/
theorem filter_dropWhile {keep drop : Char → Bool} (h : ∀ c, keep c = false → drop c = true)
    (s : List Char) : (s.dropWhile drop).filter keep = (s.filter keep).dropWhile drop := by
  induction s with
  | nil => rfl
  | cons c s ih =>
    by_cases hdrop : drop c = true
    · rw [List.dropWhile_cons_of_pos hdrop, ih]
      by_cases hkeep : keep c = true
      · rw [List.filter_cons_of_pos hkeep, List.dropWhile_cons_of_pos hdrop]
      · rw [List.filter_cons_of_neg hkeep]
    · have hkeep : keep c = true := by
        by_contra hnot
        exact hdrop (h c (Bool.not_eq_true _ ▸ hnot))
      rw [List.dropWhile_cons_of_neg hdrop, List.filter_cons_of_pos hkeep,
        List.dropWhile_cons_of_neg hdrop]

theorem filter_trimEnd (s : List Char) :
    (trimEnd s).filter (· ≠ '\n') = trimEnd (s.filter (· ≠ '\n')) := by
  have hblank : ∀ c : Char, decide (c ≠ '\n') = false → isBlank c = true := by
    intro c hc
    rw [of_not_not (of_decide_eq_false hc)]
    decide
  rw [trimEnd, trimEnd, List.filter_reverse, filter_dropWhile hblank, List.filter_reverse]

/-- Of what is no line end, cutting before trimming leaves what trimming leaves. -/
theorem filter_trimEnd_limitBreaks (seen : Nat) (s : List Char) :
    (trimEnd (limitBreaks seen s)).filter (· ≠ '\n') = (trimEnd s).filter (· ≠ '\n') := by
  rw [filter_trimEnd, filter_limitBreaks, ← filter_trimEnd]

/-! ## Tidying -/

/-- A text with long runs of line ends cut, and without the blanks around it. -/
def tidied (s : List Char) : List Char := trim (limitBreaks 0 s)

/-- A trimmed text in front keeps its place and what is behind it is trimmed at its end. -/
theorem trim_append (hs : Trimmed s) (t : List Char) : trim (s ++ t) = s ++ trimEnd t := by
  obtain ⟨c, hc, hblank⟩ := hs.last
  rw [trim, hs.trimStart_append, trimEnd, List.reverse_append, List.dropWhile_append]
  split
  next hempty =>
    rw [List.isEmpty_iff] at hempty
    rw [trimEnd, hempty, List.reverse_nil, List.append_nil]
    obtain ⟨front, rfl⟩ := List.getLast?_eq_some_iff.1 hc
    rw [List.reverse_concat, List.dropWhile_cons_of_neg (by simp [hblank]), ← List.reverse_concat,
      List.reverse_reverse]
  next => rw [List.reverse_append, List.reverse_reverse, trimEnd]

/-- A text is tidy if it begins and ends with other characters than blanks and has no long run. -/
structure Tidy (s : List Char) : Prop extends Trimmed s where
  sparse : Sparse s

theorem Tidy.tidied_eq (h : Tidy s) : tidied s = s := by
  have htrim := trim_append h.toTrimmed []
  rw [List.append_nil] at htrim
  rw [tidied, limitBreaks_eq_self_iff.2 h.sparse, htrim]
  exact List.append_nil s

/-- A tidy text ends a run, so what is behind it is cut on its own. -/
theorem Tidy.limitBreaks_append (h : Tidy s) (t : List Char) :
    limitBreaks 0 (s ++ t) = s ++ limitBreaks 0 t := by
  obtain ⟨c, hc, hblank⟩ := h.last
  obtain ⟨front, hs⟩ := List.getLast?_eq_some_iff.1 hc
  have hne : c ≠ '\n' := by
    rintro rfl
    exact absurd hblank (by decide)
  have hrun : runAfter 0 s = 0 := by rw [hs, runAfter_concat hne]
  rw [Writing.limitBreaks_append (Nat.zero_le _), limitBreaks_eq_self_iff.2 h.sparse, hrun]

/-- Behind a tidy text runs are cut and the blanks at the end taken away. -/
theorem Tidy.tidied_append (h : Tidy s) (t : List Char) :
    tidied (s ++ t) = s ++ trimEnd (limitBreaks 0 t) := by
  rw [tidied, h.limitBreaks_append, trim_append h.toTrimmed]

/-- What is tidied behind a tidy text is tidy together with it. -/
theorem Tidy.append (h : Tidy s) (t : List Char) : Tidy (s ++ trimEnd (limitBreaks 0 t)) := by
  refine ⟨⟨?_, ?_⟩, ?_⟩
  · obtain ⟨c, hc, hblank⟩ := h.head
    exact ⟨c, by rw [List.head?_append, hc]; rfl, hblank⟩
  · by_cases hempty : trimEnd (limitBreaks 0 t) = []
    · rw [hempty, List.append_nil]
      exact h.last
    · have hlast := List.rdropWhile_last_not isBlank (limitBreaks 0 t) hempty
      refine ⟨_, ?_, Bool.not_eq_true _ ▸ hlast⟩
      rw [List.getLast?_append_of_ne_nil _ hempty, List.getLast?_eq_some_getLast hempty]
      rfl
  -- it is what is left of a text that has been cut
  · refine (sparse_limitBreaks (Nat.zero_le maxBreaks) (s ++ t)).of_front ?_
    rw [List.replicate_zero, List.nil_append, h.limitBreaks_append]
    exact (List.prefix_append_right_inj s).2 (List.rdropWhile_prefix _ _)

/-! ## The text of a file -/

theorem tidy_header {header : String} (h : header ∈ [typesHeader, clientHeader]) :
    Tidy header.toList := by
  have hends : header.toList.head? = some '/' ∧ header.toList.getLast? = some '/' ∧
      limitBreaks 0 header.toList = header.toList := by
    rcases List.mem_pair.1 h with rfl | rfl
    · decide +kernel
    · decide +kernel
  exact ⟨⟨⟨'/', hends.1, rfl⟩, ⟨'/', hends.2.1, rfl⟩⟩, limitBreaks_eq_self_iff.1 hends.2.2⟩

theorem toList_fileText (body header : String) :
    (fileText body header).toList =
      tidied (header.toList ++ ('\n' :: '\n' :: body.toList)) ++ ['\n'] := by
  rw [fileText, String.toList_ofList, tidied, List.append_assoc]
  rfl

/-- The text of a file begins with the header, has no run of three line ends, and ends with
one line end behind another character than a blank. But for line ends it is the header and the
body without the blanks at its end. There is nothing to cut in it; cutting, trimming and
ending it again gives it back, and cutting and trimming changes nothing in it but for the line
end that is put behind it afterwards. -/
theorem fileText_in_normal_form {header : String} (h : header ∈ [typesHeader, clientHeader])
    (body : String) :
    let text := (fileText body header).toList
    header.toList <+: text ∧
      ¬['\n', '\n', '\n'] <:+: text ∧
      (∃ front c, text = front ++ [c, '\n'] ∧ isBlank c = false) ∧
      text.filter (· ≠ '\n') = (header.toList ++ trimEnd body.toList).filter (· ≠ '\n') ∧
      limitBreaks 0 text = text ∧
      trim (limitBreaks 0 text) ++ ['\n'] = text ∧
      ∀ tidy, text = tidy ++ ['\n'] → trim (limitBreaks 0 tidy) = tidy := by
  intro text
  have hheader := tidy_header h
  -- the body with the empty line before it, and what is left of both
  let rest := '\n' :: '\n' :: body.toList
  let tidy := header.toList ++ trimEnd (limitBreaks 0 rest)
  have htidy : Tidy tidy := hheader.append rest
  have htext : text = tidy ++ ['\n'] :=
    (toList_fileText body header).trans (congrArg (· ++ ['\n']) (hheader.tidied_append rest))
  have hcut : limitBreaks 0 text = text := by
    rw [htext, htidy.limitBreaks_append]
    rfl
  have hagain : trim (limitBreaks 0 text) = tidy := by
    rw [htext]
    exact (htidy.tidied_append ['\n']).trans (List.append_nil tidy)
  have hrest : (trimEnd (limitBreaks 0 rest)).filter (· ≠ '\n') =
      (trimEnd body.toList).filter (· ≠ '\n') := by
    rw [filter_trimEnd_limitBreaks, filter_trimEnd, filter_trimEnd]
    rfl
  refine ⟨?_, limitBreaks_eq_self_iff.1 hcut, ?_, ?_, hcut, ?_, fun other heq => ?_⟩
  · rw [htext, List.append_assoc]
    exact List.prefix_append _ _
  · obtain ⟨c, hc, hblank⟩ := htidy.last
    obtain ⟨front, hfront⟩ := List.getLast?_eq_some_iff.1 hc
    exact ⟨front, c, by rw [htext, hfront, List.append_assoc]; rfl, hblank⟩
  · rw [htext, List.filter_append, List.filter_append, hrest, List.filter_append]
    exact List.append_nil _
  · rw [hagain, htext]
  · obtain rfl : other = tidy := List.append_cancel_right (heq.symm.trans htext)
    exact htidy.tidied_eq

/-- A body that begins and ends with blanks, and with five line ends in a row. -/
def looseBody : String := "\n\n  export type Id = string;\n\n\n\n\nexport type Ids = Id[];\t\n \n"

theorem fileText_in_normal_form_loose :
    clientHeader ∈ [typesHeader, clientHeader] ∧
      (fileText looseBody clientHeader).toList = clientHeader.toList ++
        "\n\n  export type Id = string;\n\nexport type Ids = Id[];".toList ++ ['\n'] ∧
      ¬['\n', '\n', '\n'] <:+: (fileText looseBody clientHeader).toList := by
  have hheader : clientHeader ∈ [typesHeader, clientHeader] :=
    List.mem_cons_of_mem _ List.mem_cons_self
  have hbody : trimEnd (limitBreaks 0 ('\n' :: '\n' :: looseBody.toList)) =
      "\n\n  export type Id = string;\n\nexport type Ids = Id[];".toList := by decide +kernel
  refine ⟨hheader, ?_, (fileText_in_normal_form hheader looseBody).2.1⟩
  rw [toList_fileText, (tidy_header hheader).tidied_append, hbody]

end TypedClients.Writing
