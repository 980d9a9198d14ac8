import TypedClients.Proofs.Files.Parts
import TypedClients.Proofs.Files.Reading

/-!
# Paths that stay below a folder

A path may go down into folders and up again. It stays below the folder where it begins if it
never goes up more often than it has gone down before. Where no links are, such a path leads
to a place below this folder.

* `Confined`: a path that goes into a folder with a name, and to a file there without leaving it.
* `place_of_confined`: where there are no links, the file is below the folder with this name.
* `place_of_names`: where there are no links, a path that never goes up leads from name to name.
-/

namespace TypedClients.Files

/-- Whether a way that begins so many folders below another folder never leaves that one. -/
def descends (depth : Nat) : List String → Bool
  | [] => true
  | name :: rest =>
    if name = ".." then 0 < depth && descends (depth - 1) rest else descends (depth + 1) rest

/-- A path to a file inside the folder with a name in another folder. The way to the file
stays in there. -/
def Confined (folder : Path) (name : String) (p : Path) : Prop :=
  ∃ inside file, p = ⟨folder.slashes, folder.parts ++ name :: (inside ++ [file])⟩ ∧ file ≠ ".." ∧
    descends 0 inside = true

variable {depth depth' : Nat} {ps qs : List String}

theorem descends_mono (hle : depth ≤ depth') (h : descends depth ps = true) :
    descends depth' ps = true := by
  induction ps generalizing depth depth' with
  | nil => rfl
  | cons name rest ih =>
    rw [descends] at h ⊢
    split
    next hparent =>
      rw [if_pos hparent, Bool.and_eq_true, decide_eq_true_eq] at h
      rw [Bool.and_eq_true, decide_eq_true_eq]
      exact ⟨Nat.lt_of_lt_of_le h.1 hle, ih (Nat.sub_le_sub_right hle 1) h.2⟩
    next hparent =>
      rw [if_neg hparent] at h
      exact ih (Nat.add_le_add_right hle 1) h

theorem descends_of_append (h : descends depth (ps ++ qs) = true) : descends depth ps = true := by
  induction ps generalizing depth with
  | nil => rfl
  | cons name rest ih =>
    rw [List.cons_append, descends] at h
    rw [descends]
    split
    next hparent =>
      rw [if_pos hparent, Bool.and_eq_true] at h
      rw [Bool.and_eq_true]
      exact ⟨h.1, ih h.2⟩
    next hparent =>
      rw [if_neg hparent] at h
      exact ih h

/-- Ways one behind the other stay below if the second does from anywhere. -/
theorem descends_append (h : descends depth ps = true) (h' : descends 0 qs = true) :
    descends depth (ps ++ qs) = true := by
  induction ps generalizing depth with
  | nil => exact descends_mono (Nat.zero_le _) h'
  | cons name rest ih =>
    rw [descends] at h
    rw [List.cons_append, descends]
    split
    next hparent =>
      rw [if_pos hparent, Bool.and_eq_true] at h
      rw [Bool.and_eq_true]
      exact ⟨h.1, ih h.2⟩
    next hparent =>
      rw [if_neg hparent] at h
      exact ih h

namespace Tree

variable {t : Tree}

/-- What some parts mean from a place is what the last of them mean from where the first ones
lead. -/
theorem exists_resolveFrom_append (t : Tree) (links : Nat) (here : Place) (ps : List String) :
    ∃ left, ∀ qs, t.resolveFrom links here (ps ++ qs) =
      t.resolveFrom left (t.resolveFrom links here ps) qs := by
  induction links generalizing here ps with
  | zero =>
    refine ⟨0, fun qs => ?_⟩
    rw [resolveFrom]
    induction ps generalizing here with
    | nil => rfl
    | cons name rest ih =>
      rw [List.cons_append, lead, lead]
      split
      · exact ih _
      · split
        · exact ih _
        · exact ih _
  | succ links outer =>
    rw [resolveFrom]
    induction ps generalizing here with
    | nil => exact ⟨links + 1, fun qs => rfl⟩
    | cons name rest ih =>
      simp only [List.cons_append, lead]
      split
      · exact ih _
      · split
        next target _ =>
          -- the rest of the way is followed behind the link
          simp only [← List.append_assoc]
          exact outer _ _
        · exact ih _

/-- A name that is no link leads to what has this name. -/
theorem lead_name {linked : Option (Place → List String → Place)} {here : Place} {name : String}
    (hname : name ≠ "..") (hlink : ∀ target, t.get? (here ++ [name]) ≠ some (.link target))
    (rest : List String) : t.lead linked here (name :: rest) = t.lead linked
    (here ++ [name]) rest := by
  rw [lead, if_neg hname]
  split
  next target hget => exact absurd hget (hlink target)
  next => rfl

/-- Where no links are, names lead from one to the next. -/
theorem lead_names {base here : Place}
    (hlinks : ∀ q target, base <+: q → t.get? q ≠ some (.link target))
    (linked : Option (Place → List String → Place)) (hps : ".." ∉ ps) (hhere : base <+: here) :
    t.lead linked here ps = here ++ ps := by
  induction ps generalizing here with
  | nil => rw [lead, List.append_nil]
  | cons name rest ih =>
    rw [List.mem_cons, not_or] at hps
    have hnext : base <+: here ++ [name] := hhere.trans (List.prefix_append _ _)
    rw [lead_name (fun heq => hps.1 heq.symm) fun target => hlinks _ target hnext,
      ih hps.2 hnext, List.append_assoc]
    rfl

/-- Where no links are, a way that stays below a folder leads to a place below it. -/
theorem lead_below {base : Place} (mid : Place)
    (hlinks : ∀ q target, base <+: q → t.get? q ≠ some (.link target))
    (linked : Option (Place → List String → Place)) {file : String} (hfile : file ≠ "..")
    (h : descends mid.length ps = true) :
    ∃ inner, t.lead linked (base ++ mid) (ps ++ [file]) = base ++ inner ++ [file] := by
  have hname : ∀ mid name rest, name ≠ ".." → t.lead linked (base ++ mid) (name :: rest) =
      t.lead linked (base ++ (mid ++ [name])) rest := by
    intro mid name rest hparent
    rw [← List.append_assoc]
    refine lead_name hparent (fun target => hlinks _ target ?_) rest
    exact ⟨mid ++ [name], (List.append_assoc _ _ _).symm⟩
  induction ps generalizing mid with
  | nil =>
    refine ⟨mid, ?_⟩
    rw [List.nil_append, hname mid file [] hfile, lead, List.append_assoc]
  | cons name rest ih =>
    rw [descends] at h
    rw [List.cons_append]
    split at h
    next hparent =>
      rw [Bool.and_eq_true, decide_eq_true_eq] at h
      have hne : mid ≠ [] := List.ne_nil_of_length_pos h.1
      rw [lead, if_pos hparent, List.dropLast_append_of_ne_nil hne]
      refine ih _ ?_
      rw [List.length_dropLast]
      exact h.2
    next hparent =>
      rw [hname mid name _ hparent]
      refine ih _ ?_
      rw [List.length_append]
      exact h

end Tree

/-- A path that goes into a folder with a name goes on from there, if no link has this name. -/
theorem exists_lead_of_name {w : Workspace} {folder : Path} {name : String} (hname : name ≠ "..")
    (hlink : ∀ target, w.tree.get? (w.place folder ++ [name]) ≠ some (.link target))
    (rest : List String) :
    ∃ linked, w.place ⟨folder.slashes, folder.parts ++ name :: rest⟩ =
      w.tree.lead linked (w.place folder ++ [name]) rest := by
  obtain ⟨left, hleft⟩ := w.tree.exists_resolveFrom_append Tree.maxLinks
    (folder.start w.folder) folder.parts
  have hplace : w.place ⟨folder.slashes, folder.parts ++ name :: rest⟩ =
      w.tree.resolveFrom left (w.place folder) (name :: rest) := hleft _
  have hstep : ∃ linked, w.tree.resolveFrom left = w.tree.lead linked := by
    cases left with
    | zero => exact ⟨none, rfl⟩
    | succ left => exact ⟨some (w.tree.resolveFrom left), rfl⟩
  obtain ⟨linked, hlinked⟩ := hstep
  exact ⟨linked, by rw [hplace, hlinked, Tree.lead_name hname hlink]⟩

/-- The file of a confined path is below the folder with the name, if no links are there. -/
theorem place_of_confined {w : Workspace} {folder p : Path} {name : String}
    (h : Confined folder name p) (hname : name ≠ "..")
    (hlinks : ∀ q target, w.place folder ++ [name] <+: q → w.tree.get? q ≠ some (.link target)) :
    ∃ inner file, w.place p = w.place folder ++ [name] ++ inner ++ [file] := by
  obtain ⟨inside, file, rfl, hfile, hdescends⟩ := h
  obtain ⟨linked, hlead⟩ := exists_lead_of_name hname
    (fun target => hlinks _ target (List.prefix_refl _)) (inside ++ [file])
  obtain ⟨inner, hinner⟩ := Tree.lead_below [] hlinks linked hfile hdescends
  rw [List.append_nil] at hinner
  exact ⟨inner, file, by rw [hlead, hinner]⟩

/-- A path that never goes up leads from name to name, if no links are there. -/
theorem place_of_names {w : Workspace} {folder : Path} {name : String} {rest : List String}
    (hname : name ≠ "..") (hrest : ".." ∉ rest)
    (hlinks : ∀ q target, w.place folder ++ [name] <+: q → w.tree.get? q ≠ some (.link target)) :
    w.place ⟨folder.slashes, folder.parts ++ name :: rest⟩ = w.place folder ++ name :: rest := by
  obtain ⟨linked, hlead⟩ := exists_lead_of_name hname
    (fun target => hlinks _ target (List.prefix_refl _)) rest
  rw [hlead, Tree.lead_names hlinks linked hrest (List.prefix_refl _), List.append_assoc]
  rfl

end TypedClients.Files
