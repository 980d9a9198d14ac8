import TypedClients.Proofs.Files.Writing

/-!
# Paths that are settled

A path is settled if it leads somewhere, or if what is in its way is there: a file where a
folder should be, a name that is too long, too many links. Only a path that stops where
nothing is can lead elsewhere once the tree grows. So a step on a settled path does the same
in all trees that grow from one.

* `Grows.locate_eq`: a settled path leads to the same, or fails with the same problem, in a
  grown tree.
* `exists_locate_append`: where a path leads is found by going on from where its first parts lead.
* `outcome_makeFolders_of_settled`: no folder is made on a settled path.
-/

namespace TypedClients.Files

namespace Tree

variable {t t' : Tree} {here holder place : Place} {parts front : List String} {mayBeNew : Bool}
  {links : Nat} {folder : Place} {p : Path} {problem : SystemProblem}

/-! ## What a grown tree keeps -/

theorem Grows.isSome (h : t.Grows t') (hthere : (t.get? place).isSome) :
    (t'.get? place).isSome := by
  obtain ⟨e, hget⟩ := Option.isSome_iff_exists.1 hthere
  cases e with
  | file bytes =>
    obtain ⟨bytes', hget'⟩ := h.file _ _ hget
    rw [hget']
    rfl
  | folder =>
    rw [h.folder _ hget]
    rfl
  | link target =>
    rw [(h.link _ target).2 hget]
    rfl

theorem Grows.walk_eq (h : t.Grows t')
    {linked linked' : Place → List String → Except SystemProblem Place}
    (hlinked : ∀ start rest, linked start rest ≠ .error .missing →
      linked' start rest = linked start rest)
    (hne : t.walk false linked here parts ≠ .error .missing) :
    t'.walk mayBeNew linked' here parts = t.walk false linked here parts := by
  induction parts generalizing here with
  | nil => rfl
  | cons name rest ih =>
    rw [Tree.walk] at hne ⊢
    rw [Tree.walk]
    cases hhere : t.get? here with
    | none =>
      rw [hhere] at hne
      exact absurd rfl hne
    | some e =>
      rw [hhere] at hne
      cases e with
      | file bytes =>
        obtain ⟨bytes', hhere'⟩ := h.file _ _ hhere
        rw [hhere']
      | link target => rw [(h.link _ target).2 hhere]
      | folder =>
        rw [h.folder _ hhere]
        by_cases hparent : name = ".."
        · simp only [if_pos hparent] at hne ⊢
          exact ih hne
        by_cases hlong : name.utf8ByteSize > maxNameBytes
        · simp only [if_neg hparent, if_pos hlong]
        simp only [if_neg hparent, if_neg hlong] at hne ⊢
        cases hget : t.get? (here ++ [name]) with
        | none =>
          rw [hget] at hne
          exact absurd rfl hne
        | some e =>
          rw [hget] at hne
          cases e with
          | file bytes =>
            obtain ⟨bytes', hget'⟩ := h.file _ _ hget
            rw [hget']
            exact ih hne
          | folder =>
            rw [h.folder _ hget]
            exact ih hne
          | link target =>
            rw [(h.link _ target).2 hget]
            exact hlinked _ _ hne

theorem Grows.follow_eq (h : t.Grows t') (hne : t.follow false links here parts ≠ .error .missing) :
    t'.follow mayBeNew links here parts = t.follow false links here parts := by
  induction links generalizing here parts with
  | zero => exact h.walk_eq (fun _ _ _ => rfl) hne
  | succ links ih => exact h.walk_eq (fun _ _ hrest => ih hrest) hne

/-- A path that does not stop where nothing is leads to the same in a grown tree, or fails as
before. -/
theorem Grows.locate_eq (h : t.Grows t') (hne : t.locate false folder p ≠ .error .missing) :
    t'.locate mayBeNew folder p = t.locate false folder p := h.follow_eq hne

/-! ## Going on from where the first parts lead -/

theorem exists_walk_append (linked : Bool → Place → List String → Except SystemProblem Place)
    (hlinked : ∀ start ps, linked false start ps = .ok holder →
      ∃ linked' : Bool → Place → List String → Except SystemProblem Place, ∀ mayBeNew rest,
      linked mayBeNew start (ps ++ rest) = t.walk mayBeNew (linked' mayBeNew) holder rest)
    (h : t.walk false (linked false) here front = .ok holder) :
    ∃ linked' : Bool → Place → List String → Except SystemProblem Place, ∀ mayBeNew rest,
      t.walk mayBeNew (linked mayBeNew) here (front ++ rest) =
        t.walk mayBeNew (linked' mayBeNew) holder rest := by
  induction front generalizing here with
  | nil =>
    cases h
    exact ⟨linked, fun _ _ => rfl⟩
  | cons name front ih =>
    rw [Tree.walk] at h
    simp only [List.cons_append, Tree.walk]
    split at h
    next hhere =>
      by_cases hparent : name = ".."
      · simp only [if_pos hparent] at h ⊢
        exact ih h
      by_cases hlong : name.utf8ByteSize > maxNameBytes
      · simp only [if_neg hparent, if_pos hlong] at h
        cases h
      simp only [if_neg hparent, if_neg hlong] at h ⊢
      split at h
      next =>
        simp only [← List.append_assoc]
        exact hlinked _ _ h
      next => exact ih h
      next => cases h
    next => cases h
    next => cases h

theorem exists_follow_append (h : t.follow false links here front = .ok holder) :
    ∃ linked : Bool → Place → List String → Except SystemProblem Place, ∀ mayBeNew rest,
      t.follow mayBeNew links here (front ++ rest) =
        t.walk mayBeNew (linked mayBeNew) holder rest := by
  induction links generalizing here front with
  | zero =>
    exact exists_walk_append (fun _ _ _ => .error .tooManyLinks) (fun _ _ hps => by cases hps) h
  | succ links ih =>
    exact exists_walk_append (fun mayBeNew => t.follow mayBeNew links) (fun _ _ hps => ih hps) h

/-- Where a path leads is found by going on from where its first parts lead. -/
theorem exists_locate_append {slashes : Nat}
    (h : t.locate false folder ⟨slashes, front⟩ = .ok holder) :
    ∃ linked : Bool → Place → List String → Except SystemProblem Place, ∀ mayBeNew rest,
      t.locate mayBeNew folder ⟨slashes, front ++ rest⟩ =
        t.walk mayBeNew (linked mayBeNew) holder rest := exists_follow_append h

theorem walk_append_error {linked : Place → List String → Except SystemProblem Place}
    {rest : List String} (hlinked : ∀ start ps, linked start ps = .error problem →
      linked start (ps ++ rest) = .error problem)
    (h : t.walk false linked here front = .error problem) :
    t.walk false linked here (front ++ rest) = .error problem := by
  induction front generalizing here with
  | nil => cases h
  | cons name front ih =>
    rw [Tree.walk] at h
    rw [List.cons_append, Tree.walk]
    split at h
    next hhere =>
      by_cases hparent : name = ".."
      · simp only [if_pos hparent] at h ⊢
        exact ih h
      by_cases hlong : name.utf8ByteSize > maxNameBytes
      · simp only [if_neg hparent, if_pos hlong] at h ⊢
        exact h
      simp only [if_neg hparent, if_neg hlong] at h ⊢
      split at h
      next =>
        simp only [← List.append_assoc]
        exact hlinked _ _ h
      next => exact ih h
      next => exact h
    next => exact h
    next => exact h

theorem follow_append_error {rest : List String}
    (h : t.follow false links here front = .error problem) :
    t.follow false links here (front ++ rest) = .error problem := by
  induction links generalizing here front with
  | zero => exact walk_append_error (fun _ _ hps => hps) h
  | succ links ih => exact walk_append_error (fun _ _ hps => ih hps) h

/-- A problem with the first parts of a path is one with the path. -/
theorem locate_append_error {slashes : Nat} {rest : List String}
    (h : t.locate false folder ⟨slashes, front⟩ = .error problem) :
    t.locate false folder ⟨slashes, front ++ rest⟩ = .error problem := follow_append_error h

/-- A settled path is in something that is there. -/
theorem parent_settled (hparts : p.parts ≠ []) (hne : t.locate false folder p ≠ .error .missing) :
    t.locate false folder p.parent ≠ .error .missing ∧
      ∀ holder, t.locate false folder p.parent = .ok holder → t.get? holder ≠ none := by
  obtain ⟨slashes, parts⟩ := p
  rcases List.eq_nil_or_concat parts with rfl | ⟨front, name, rfl⟩
  · exact absurd rfl hparts
  rw [List.concat_eq_append] at hne ⊢
  simp only [Path.parent, List.dropLast_concat]
  refine ⟨fun hmissing => hne (locate_append_error hmissing), fun holder hholder hnone => hne ?_⟩
  obtain ⟨linked, hlinked⟩ := exists_locate_append hholder
  rw [hlinked, Tree.walk, hnone]

theorem makeFolder_name (t : Tree) (folder : Place) (slashes : Nat) (front : List String)
    {name : String} (hname : name ≠ "..") : t.makeFolder folder ⟨slashes, front ++ [name]⟩ =
      (t.locate false folder ⟨slashes, front⟩ >>= fun holder =>
        match t.get? holder with
        | some .folder =>
          if name.utf8ByteSize > maxNameBytes then .error .nameTooLong
          else if (t.get? (holder ++ [name])).isSome then .error .exists
          else .ok (t.set (holder ++ [name]) .folder)
        | some _ => .error .notADirectory
        | none => .error .missing) := by
  have hlast : (front ++ [name]).getLast? = some name := List.getLast?_concat
  have hparent : Path.parent ⟨slashes, front ++ [name]⟩ = ⟨slashes, front⟩ :=
    congrArg (Path.mk slashes) List.dropLast_concat
  unfold makeFolder
  rw [hparent]
  split
  next h => cases hlast.symm.trans h
  next h => exact absurd (Option.some.inj (hlast.symm.trans h)) hname
  next h =>
    obtain rfl := Option.some.inj (hlast.symm.trans h)
    rfl

theorem makeFolder_up_of_settled {slashes : Nat}
    (hne : t.locate false folder ⟨slashes, front ++ [".."]⟩ ≠ .error .missing) :
    ∃ problem, problem ≠ .missing ∧
      ∀ t', t.Grows t' → t'.makeFolder folder ⟨slashes, front ++ [".."]⟩ = .error problem := by
  cases hlocate : t.locate false folder ⟨slashes, front ++ [".."]⟩ with
  | ok place =>
    refine ⟨.exists, by decide, fun t' hgrows => ?_⟩
    simp only [makeFolder, List.getLast?_concat, hgrows.locate_eq hne, hlocate]
    rfl
  | error problem =>
    refine ⟨problem, fun hmissing => hne (hlocate.trans (by rw [hmissing])), fun t' hgrows => ?_⟩
    simp only [makeFolder, List.getLast?_concat, hgrows.locate_eq hne, hlocate]
    rfl

theorem makeFolder_name_of_settled {slashes : Nat} {name : String} (hname : name ≠ "..")
    (hne : t.locate false folder ⟨slashes, front ++ [name]⟩ ≠ .error .missing) :
    ∃ problem, problem ≠ .missing ∧
      ∀ t', t.Grows t' → t'.makeFolder folder ⟨slashes, front ++ [name]⟩ = .error problem := by
  have hfront : t.locate false folder ⟨slashes, front⟩ ≠ .error .missing := fun hmissing =>
    hne (locate_append_error hmissing)
  have hmake := fun t' (hgrows : t.Grows t') =>
    (makeFolder_name t' folder slashes front hname).trans
      (congrArg (· >>= _) (hgrows.locate_eq hfront))
  cases hlocate : t.locate false folder ⟨slashes, front⟩ with
  | error problem =>
    refine ⟨problem, fun hmissing => hfront (hlocate.trans (by rw [hmissing])), fun t' hgrows => ?_⟩
    rw [hmake t' hgrows, hlocate]
    rfl
  | ok holder =>
    obtain ⟨linked, hlinked⟩ := exists_locate_append hlocate
    rw [hlinked, Tree.walk] at hne
    simp only [hlocate, bind, Except.bind] at hmake
    -- what holds the last name is there, as the path does not stop where nothing is
    cases hget : t.get? holder with
    | none =>
      rw [hget] at hne
      exact absurd rfl hne
    | some e =>
      cases e with
      | file bytes =>
        refine ⟨.notADirectory, by decide, fun t' hgrows => ?_⟩
        obtain ⟨bytes', hget'⟩ := hgrows.file _ _ hget
        simp only [hmake t' hgrows, hget']
      | link target =>
        refine ⟨.notADirectory, by decide, fun t' hgrows => ?_⟩
        simp only [hmake t' hgrows, (hgrows.link _ target).2 hget]
      | folder =>
        simp only [hget, if_neg hname] at hne
        by_cases hlong : name.utf8ByteSize > maxNameBytes
        · refine ⟨.nameTooLong, by decide, fun t' hgrows => ?_⟩
          simp only [hmake t' hgrows, hgrows.folder _ hget, if_pos hlong]
        · rw [if_neg hlong] at hne
          have hthere : (t.get? (holder ++ [name])).isSome := by
            rw [Option.isSome_iff_ne_none]
            intro hnone
            rw [hnone] at hne
            exact hne rfl
          refine ⟨.exists, by decide, fun t' hgrows => ?_⟩
          simp only [hmake t' hgrows, hgrows.folder _ hget, if_neg hlong,
            if_pos (hgrows.isSome hthere)]

/-- No folder is made on a settled path, in any tree that grows from this one. -/
theorem makeFolder_of_settled (hne : t.locate false folder p ≠ .error .missing) :
    ∃ problem, problem ≠ .missing ∧ ∀ t', t.Grows t' → t'.makeFolder folder p = .error problem := by
  obtain ⟨slashes, parts⟩ := p
  rcases List.eq_nil_or_concat parts with rfl | ⟨front, name, rfl⟩
  · exact ⟨.exists, by decide, fun t' _ => rfl⟩
  rw [List.concat_eq_append] at hne ⊢
  by_cases hname : name = ".."
  · subst hname
    exact makeFolder_up_of_settled hne
  · exact makeFolder_name_of_settled hname hne

theorem Grows.get?_eq_folder_iff (h : t.Grows t') (hthere : t.get? place ≠ none) :
    t'.get? place = some .folder ↔ t.get? place = some .folder := by
  refine ⟨fun hget' => ?_, h.folder place⟩
  cases hget : t.get? place with
  | none => exact absurd hget hthere
  | some e =>
    cases e with
    | folder => rfl
    | file bytes =>
      obtain ⟨bytes', hfile⟩ := h.file _ _ hget
      cases hget'.symm.trans hfile
    | link target => cases hget'.symm.trans ((h.link _ target).2 hget)

end Tree

/-! ## Surroundings with a grown tree -/

/-- Surroundings that differ from others only in a grown tree, and in what is left on standard
input. -/
structure Grown (v w : Workspace) : Prop where
  rest : w = { v with tree := w.tree, input := w.input }
  proper : w.tree.Proper
  grows : v.tree.Grows w.tree

theorem Writes.grown {v w : Workspace} {es : List Write} (h : Writes v es w) : Grown v w :=
  ⟨by rw [h.rest], h.proper, h.grows⟩

namespace Grown

variable {u v w : Workspace}

theorem refl (h : v.tree.Proper) : Grown v v := ⟨rfl, h, .refl _⟩

theorem trans (h : Grown u v) (h' : Grown v w) : Grown u w :=
  ⟨by rw [h'.rest, h.rest], h'.proper, h.grows.trans h'.grows⟩

theorem folder (h : Grown v w) : w.folder = v.folder := by rw [h.rest]

theorem place (h : Grown v w) (p : Path) : w.place p = v.place p := by
  rw [h.rest]
  exact h.grows.resolve v.folder p

theorem locate_eq (h : Grown v w) {p : Path} {mayBeNew : Bool}
    (hne : v.tree.locate false v.folder p ≠ .error .missing) :
    w.tree.locate mayBeNew w.folder p = v.tree.locate false v.folder p := by
  rw [h.folder]
  exact h.grows.locate_eq hne

end Grown

namespace Session

variable {v w : Workspace} {p : Path}

theorem outcome_at? (p : Path) (w : Workspace) :
    (at? p).outcome w =
      (if (objection? p).isSome then .ok none
        else match w.tree.locate false w.folder p with
          | .ok place => .ok (w.tree.get? place)
          | .error .nameTooLong => .error (.system ⟨.nameTooLong, p.text⟩)
          | .error _ => .ok none, w) := by
  refine (outcome_bind _ _ _).trans ?_
  change outcome (if (objection? p).isSome then _ else _) w = _
  split
  · rfl
  · generalize w.tree.locate false w.folder p = found
    cases found with
    | ok place => rfl
    | error problem =>
      cases problem with
      | _ => rfl

theorem outcome_hasFolder (p : Path) (w : Workspace) :
    (hasFolder p).outcome w =
      (((at? p).outcome w).1.map fun e => decide (e = some .folder), w) := by
  refine (outcome_bind _ _ _).trans ?_
  rw [(reads_at? p).outcome w]
  cases ((at? p).outcome w).1 with
  | ok e => rfl
  | error f => rfl

/-- Whether a settled path leads to a folder stays so while the tree grows. -/
theorem outcome_hasFolder_of_settled (h : Grown v w)
    (hne : v.tree.locate false v.folder p ≠ .error .missing)
    (hthere : ∀ place, v.tree.locate false v.folder p = .ok place → v.tree.get? place ≠ none) :
    (hasFolder p).outcome w = (((hasFolder p).outcome v).1, w) := by
  rw [outcome_hasFolder, outcome_hasFolder, outcome_at?, outcome_at?, h.locate_eq hne]
  split
  · rfl
  · split
    next place hlocate =>
      refine Prod.ext (congrArg Except.ok ?_) rfl
      exact decide_eq_decide.2 (h.grows.get?_eq_folder_iff (hthere place hlocate))
    next => rfl
    next => rfl

theorem outcome_tryMakeFolder (p : Path) (w : Workspace) :
    (tryMakeFolder p).outcome w =
      match objection? p with
      | some m => (.error (.mishap m), w)
      | none =>
        match w.tree.makeFolder w.folder p with
        | .ok t => (.ok none, { w with tree := t })
        | .error problem => (.ok (some problem), w) := by
  refine (outcome_bind _ _ _).trans ?_
  rw [requireAskable]
  cases objection? p with
  | some m => rfl
  | none =>
    change outcome (match w.tree.makeFolder w.folder p with | .ok _ => _ | .error _ => _) w = _
    cases w.tree.makeFolder w.folder p with
    | ok t => rfl
    | error problem => rfl

theorem outcome_settleFolder {problem : SystemProblem} (hproblem : problem ≠ .missing) (p : Path)
    (w : Workspace) :
    (settleFolder p problem).outcome w =
      (((hasFolder p).outcome w).1.bind fun there =>
        if there then .ok () else .error (.system ⟨problem, p.text⟩), w) := by
  rw [settleFolder, if_neg hproblem, outcome_bind, (reads_hasFolder p).outcome w]
  cases ((hasFolder p).outcome w).1 with
  | error f => rfl
  | ok there =>
    cases there with
    | false => rfl
    | true => rfl

/-- To make a folder and those above it, the folder itself is tried first. -/
theorem exists_makeFolders_eq (p : Path) : ∃ next : Option SystemProblem → Session Unit,
    makeFolders p = (tryMakeFolder p >>= next) ∧ next none = pure () ∧
      ∀ problem, problem ≠ .missing → next (some problem) = settleFolder p problem := by
  obtain ⟨slashes, parts⟩ := p
  rw [makeFolders]
  rcases List.eq_nil_or_concat parts with rfl | ⟨front, name, rfl⟩
  · exact ⟨_, rfl, rfl, fun _ _ => rfl⟩
  · rw [List.concat_eq_append, List.reverse_append, List.reverse_singleton, List.singleton_append,
      makeFoldersFrom, List.reverse_cons, List.reverse_reverse]
    refine ⟨_, rfl, rfl, fun problem hproblem => ?_⟩
    cases problem with
    | missing => exact absurd rfl hproblem
    | _ => rfl

theorem outcome_makeFolders_of_objection {m : Mishap} (h : objection? p = some m) (w : Workspace) :
    (makeFolders p).outcome w = (.error (.mishap m), w) := by
  obtain ⟨next, hnext, -⟩ := exists_makeFolders_eq p
  rw [hnext, outcome_bind, outcome_tryMakeFolder, h]

/-- If a folder cannot be made for another reason than that nothing is there to hold it, no
folder is made, and it only matters whether one is there. -/
theorem outcome_makeFolders_of_error {problem : SystemProblem} (hproblem : problem ≠ .missing)
    (hmake : w.tree.makeFolder w.folder p = .error problem) (hask : objection? p = none) :
    (makeFolders p).outcome w = (settleFolder p problem).outcome w := by
  obtain ⟨next, hnext, -, hsettle⟩ := exists_makeFolders_eq p
  rw [hnext, outcome_bind, outcome_tryMakeFolder, hask, hmake]
  simp only
  rw [hsettle problem hproblem]

/-- On a settled path no folder is made, and whether that is accepted stays so while the tree
grows. -/
theorem outcome_makeFolders_of_settled (hne : v.tree.locate false v.folder p ≠ .error .missing)
    (hthere : ∀ place, v.tree.locate false v.folder p = .ok place → v.tree.get? place ≠ none) :
    ∃ r, ∀ w, Grown v w → (makeFolders p).outcome w = (r, w) := by
  obtain ⟨problem, hproblem, hmake⟩ := Tree.makeFolder_of_settled hne
  cases hask : objection? p with
  | some m => exact ⟨_, fun w _ => outcome_makeFolders_of_objection hask w⟩
  | none =>
    refine ⟨((settleFolder p problem).outcome v).1, fun w hw => ?_⟩
    rw [outcome_makeFolders_of_error hproblem (hw.folder ▸ hmake w.tree hw.grows) hask,
      outcome_settleFolder hproblem, outcome_settleFolder hproblem,
      outcome_hasFolder_of_settled hw hne hthere]

end Session

end TypedClients.Files
