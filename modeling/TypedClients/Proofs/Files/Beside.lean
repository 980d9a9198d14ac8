import TypedClients.Proofs.Files.Below
import TypedClients.Proofs.Files.Folders

/-!
# Steps beside the work of others

A step on a path is done in two surroundings that have grown from the same ones. In the
second, others have made folders on the way to the path, but have left alone what the path
itself means. If the path is straight, so that folders made by others cannot lead it
elsewhere, the step gives the same in both, and changes the same.

* `Straight`: a path that leads nowhere goes on by names only, behind a folder that is there.
* `alike_makeFolders`, `alike_writeText`: making the folders for a file, and writing it.
-/

namespace TypedClients.Files

/-- A path to something new: its first parts lead to a folder, and the others are names, the
first one of nothing in this folder. -/
structure Fresh (v : Workspace) (p : Path) (front : List String) (holder : Place) (name : String)
    (rest : List String) : Prop where
  parts : p.parts = front ++ name :: rest
  leads : Leads v p.slashes front holder
  new : v.tree.get? (holder ++ [name]) = none
  names : ∀ n, n ∈ name :: rest → IsOrdinary n

/-- A path that, if it leads nowhere, is one to something new. -/
def Straight (v : Workspace) (p : Path) : Prop :=
  v.tree.locate false v.folder p = .error .missing →
    ∃ front holder name rest, Fresh v p front holder name rest

/-- What is on the way to a path is as in other surroundings, but for folders where nothing is
there. -/
def Beside (v u w : Workspace) (p : Path) : Prop :=
  ∀ q, q <+: v.place p → w.tree.get? q = u.tree.get? q ∨
    u.tree.get? q = none ∧ w.tree.get? q = some .folder ∧ q ≠ v.place p

/-- Two steps on a path change the same: what the path means, and new folders on the way to it. -/
def Alike (v : Workspace) (p : Path) (u u' w w' : Workspace) : Prop :=
  ∀ q, u'.tree.get? q = u.tree.get? q ∧ w'.tree.get? q = w.tree.get? q ∨
    u'.tree.get? q = w'.tree.get? q ∧ (q = v.place p ∨
      q <+: v.place p ∧ v.tree.get? q = none ∧ u'.tree.get? q = some .folder)

/-- The folder for a new file is there. -/
def Ready (v : Workspace) (p : Path) (u : Workspace) : Prop :=
  v.tree.locate false v.folder p = .error .missing → u.tree.get? (v.place p).dropLast = some .folder

variable {v u w : Workspace} {p : Path} {front rest : List String} {holder q : Place}
    {name : String}

theorem Alike.unchanged : Alike v p u u w w := fun _ => Or.inl ⟨rfl, rfl⟩

/-! ## Paths to something new -/

namespace Fresh

theorem none_below (h : Fresh v p front holder name rest) (hv : v.tree.Proper)
    (hq : holder ++ [name] <+: q) : v.tree.get? q = none := hv.none_below h.new hq

theorem not_link (h : Fresh v p front holder name rest) (hv : v.tree.Proper) (hw : Grown v w)
    (hq : holder ++ [name] <+: q) (target : Path) : w.tree.get? q ≠ some (.link target) := by
  rw [Ne, hw.grows.link, h.none_below hv hq]
  exact fun heq => by cases heq

theorem place_eq (h : Fresh v p front holder name rest) (hv : v.tree.Proper) :
    v.place p = holder ++ name :: rest := by
  have hfront : v.place ⟨p.slashes, front⟩ = holder := Tree.locate_eq_resolve h.leads.located
  have hplace : v.place ⟨(Path.mk p.slashes front).slashes,
      (Path.mk p.slashes front).parts ++ name :: rest⟩ =
      v.place ⟨p.slashes, front⟩ ++ name :: rest := by
    refine place_of_names (h.names _ List.mem_cons_self).1
      (fun hmem => (h.names _ (List.mem_cons_of_mem _ hmem)).1 rfl) fun q target hq => ?_
    rw [hfront] at hq
    exact h.not_link hv (.refl hv) hq target
  rw [hfront, ← h.parts] at hplace
  exact hplace

theorem parent_eq (h : Fresh v p front holder name rest) :
    p.parent = ⟨p.slashes, front ++ (name :: rest).dropLast⟩ := by
  rw [Path.parent, h.parts, List.dropLast_append_of_ne_nil (List.cons_ne_nil _ _)]

theorem dropLast_place (h : Fresh v p front holder name rest) (hv : v.tree.Proper) :
    (v.place p).dropLast = holder ++ (name :: rest).dropLast := by
  rw [h.place_eq hv, List.dropLast_append_of_ne_nil (List.cons_ne_nil _ _)]

/-- What is on the way behind the folder was not there, so it is no link later. -/
theorem none_on_way (h : Fresh v p front holder name rest) (hv : v.tree.Proper) (hq : holder <+: q)
    (hne : q ≠ holder) (hway : q <+: v.place p) : v.tree.get? q = none := by
  refine h.none_below hv ?_
  obtain ⟨names, rfl⟩ := hq
  rw [h.place_eq hv, List.prefix_append_right_inj] at hway
  cases names with
  | nil => exact absurd (List.append_nil _) hne
  | cons n names =>
    obtain ⟨rfl, -⟩ := List.cons_prefix_cons.1 hway
    exact ⟨names, by simp⟩

end Fresh

/-! ## Making the folders for a file -/

/-- In grown surroundings, what is on the way to something new is a file, a folder or nothing. -/
theorem Fresh.none_or_folder (h : Fresh v p front holder name rest) (hv : v.tree.Proper)
    (hw : Grown v w) (hq : holder <+: q) (hway : q <+: v.place p)
    (hfile : ∀ bytes, w.tree.get? q ≠ some (.file bytes)) :
    w.tree.get? q = none ∨ w.tree.get? q = some .folder := by
  by_cases hne : q = holder
  · exact Or.inr (by rw [hne]; exact (h.leads.grown hw).folder)
  · cases hget : w.tree.get? q with
    | none => exact Or.inl rfl
    | some e =>
      cases e with
      | folder => exact Or.inr rfl
      | file bytes => exact absurd hget (hfile bytes)
      | link target =>
        rw [hw.grows.link, h.none_on_way hv hq hne hway] at hget
        cases hget

/-- Folders that are made as far as they are missing on the way to something new are the same
in the end. -/
theorem Fresh.alike_of_made {last : Place} (h : Fresh v p front holder name rest)
    (hv : v.tree.Proper) (hu : u.tree.get? holder = some .folder)
    (hw : w.tree.get? holder = some .folder) (hlast : last <+: v.place p)
    (hmade : MadeBetween u holder last u') (hmade' : MadeBetween w holder last w') :
    Alike v p u u' w w' := by
  intro q
  by_cases hbetween : holder <+: q ∧ q <+: last
  · have hthere := hmade.there q hbetween.1 hbetween.2
    have hthere' := hmade'.there q hbetween.1 hbetween.2
    by_cases hne : q = holder
    · subst hne
      exact Or.inl ⟨hthere.trans hu.symm, hthere'.trans hw.symm⟩
    · have hway := hbetween.2.trans hlast
      exact Or.inr ⟨hthere.trans hthere'.symm,
        Or.inr ⟨hway, h.none_on_way hv hbetween.1 hne hway, hthere⟩⟩
  · exact Or.inl ⟨hmade.others q hbetween, hmade'.others q hbetween⟩

theorem alike_makeFolders_of_fresh (h : Fresh v p front holder name rest) (hv : v.tree.Proper)
    (hu : Grown v u) (hw : Grown v w) (hbeside : Beside v u w p) :
    ∃ r u' w', (Session.makeFolders p.parent).outcome u = (r, u') ∧
      (Session.makeFolders p.parent).outcome w = (r, w') ∧ Alike v p u u' w w' ∧
      (r = .ok () → u'.tree.get? (v.place p).dropLast = some .folder) := by
  have hnames : ∀ n, n ∈ (name :: rest).dropLast → IsOrdinary n := fun n hn =>
    h.names n ((List.dropLast_sublist _).mem hn)
  have hlast : holder ++ (name :: rest).dropLast <+: v.place p := by
    rw [← h.dropLast_place hv]
    exact List.dropLast_prefix _
  have hu' := h.leads.grown hu
  have hw' := h.leads.grown hw
  rw [h.parent_eq, h.dropLast_place hv]
  by_cases hfile : ∃ q bytes, holder <+: q ∧ q <+: holder ++ (name :: rest).dropLast ∧
      u.tree.get? q = some (.file bytes)
  · -- others have put only folders on the way, so the file is in the way beside them as well
    obtain ⟨q, bytes, hq, hway, hget⟩ := hfile
    have hget' : w.tree.get? q = some (.file bytes) := by
      rcases hbeside q (hway.trans hlast) with heq | ⟨hnone, -⟩
      · exact heq.trans hget
      · cases hnone.symm.trans hget
    refine ⟨_, u, w, hu'.outcome_makeFolders_of_file hu.proper hnames hget hq hway,
      hw'.outcome_makeFolders_of_file hw.proper hnames hget' hq hway, .unchanged, ?_⟩
    intro heq
    cases heq
  · have hway : ∀ q, holder <+: q → q <+: holder ++ (name :: rest).dropLast →
        u.tree.get? q = none ∨ u.tree.get? q = some .folder := fun q hq hq' =>
      h.none_or_folder hv hu hq (hq'.trans hlast) fun bytes hget => hfile ⟨q, bytes, hq, hq', hget⟩
    have hway' : ∀ q, holder <+: q → q <+: holder ++ (name :: rest).dropLast →
        w.tree.get? q = none ∨ w.tree.get? q = some .folder := by
      intro q hq hq'
      rcases hbeside q (hq'.trans hlast) with heq | ⟨-, hfolder, -⟩
      · rw [heq]
        exact hway q hq hq'
      · exact Or.inr hfolder
    cases hask : Session.objection? ⟨p.slashes, front ++ (name :: rest).dropLast⟩ with
    | some m =>
      refine ⟨_, u, w, Session.outcome_makeFolders_of_objection hask u,
        Session.outcome_makeFolders_of_objection hask w, .unchanged, ?_⟩
      intro heq
      cases heq
    | none =>
      obtain ⟨u', hrun, hmade⟩ := hu'.outcome_makeFolders_new hu.proper hnames hway hask
      obtain ⟨w', hrun', hmade'⟩ := hw'.outcome_makeFolders_new hw.proper hnames hway' hask
      exact ⟨_, u', w', hrun, hrun', h.alike_of_made hv hu'.folder hw'.folder hlast hmade hmade',
        fun _ => hmade.there _ (List.prefix_append _ _) (List.prefix_refl _)⟩

/-- Making the folders for a file on a straight path gives the same beside the work of others. -/
theorem alike_makeFolders (hv : v.tree.Proper) (hu : Grown v u) (hw : Grown v w)
    (hparts : p.parts ≠ []) (hstraight : Straight v p) (hbeside : Beside v u w p) :
    ∃ r u' w', (Session.makeFolders p.parent).outcome u = (r, u') ∧
      (Session.makeFolders p.parent).outcome w = (r, w') ∧ Alike v p u u' w w' ∧
      (r = .ok () → Ready v p u') := by
  by_cases hne : v.tree.locate false v.folder p = .error .missing
  · obtain ⟨front, holder, name, rest, h⟩ := hstraight hne
    obtain ⟨r, u', w', hrun, hrun', halike, hready⟩ := alike_makeFolders_of_fresh h hv hu hw hbeside
    exact ⟨r, u', w', hrun, hrun', halike, fun hr _ => hready hr⟩
  · obtain ⟨hsettled, hthere⟩ := Tree.parent_settled hparts hne
    obtain ⟨r, hr⟩ := Session.outcome_makeFolders_of_settled hsettled hthere
    exact ⟨r, u, w, hr u hu, hr w hw, .unchanged, fun _ hmissing => absurd hmissing hne⟩

/-! ## Writing a file -/

/-- Once the folder for it is there, the path to something new leads to the place that it
means. -/
theorem Fresh.locate_eq (h : Fresh v p front holder name rest) (hv : v.tree.Proper) (hw : Grown v w)
    (hfolder : w.tree.get? (v.place p).dropLast = some .folder) :
    w.tree.locate true w.folder p = .ok (v.place p) := by
  have hplace := h.place_eq hv
  rw [h.dropLast_place hv] at hfolder
  obtain ⟨linked, hlinked⟩ := Tree.exists_locate_append (h.leads.grown hw).located
  have hlocate : w.tree.locate true w.folder p =
      w.tree.walk true (linked true) holder (name :: rest) := by
    rw [← hlinked, ← h.parts]
  have hlast : IsOrdinary ((name :: rest).getLast (List.cons_ne_nil _ _)) :=
    h.names _ (List.getLast_mem _)
  have hlink := h.not_link hv hw (q := v.place p) (by
    rw [hplace]
    exact ⟨rest, by simp⟩)
  rw [← List.dropLast_concat_getLast (List.cons_ne_nil name rest)] at hlocate hplace
  rw [hlocate, Tree.walk_folders hw.proper
    (fun n hn => h.names n ((List.dropLast_sublist _).mem hn)) hfolder,
    Tree.walk_name hfolder hlast, hplace, List.append_assoc]
  rw [hplace] at hlink
  cases hget : w.tree.get? (holder ++ ((name :: rest).dropLast ++
      [(name :: rest).getLast (List.cons_ne_nil _ _)])) with
  | none => rfl
  | some e =>
    cases e with
    | link target => exact absurd hget (hlink target)
    | file bytes => rfl
    | folder => rfl

/-- Once the folder for it is there, a file on a straight path is put at the same place beside
the work of others, or fails to be for the same reason. -/
theorem locate_eq_beside (hv : v.tree.Proper) (hu : Grown v u) (hw : Grown v w)
    (hstraight : Straight v p) (hbeside : Beside v u w p) (hready : Ready v p u) :
    w.tree.locate true w.folder p = u.tree.locate true u.folder p := by
  by_cases hne : v.tree.locate false v.folder p = .error .missing
  · obtain ⟨front, holder, name, rest, h⟩ := hstraight hne
    have hready' : w.tree.get? (v.place p).dropLast = some .folder := by
      rcases hbeside _ (List.dropLast_prefix _) with heq | ⟨-, hfolder, -⟩
      · exact heq.trans (hready hne)
      · exact hfolder
    rw [h.locate_eq hv hu (hready hne), h.locate_eq hv hw hready']
  · rw [hu.locate_eq hne, hw.locate_eq hne]

theorem Tree.writeFile_eq {t : Tree} {folder place : Place} {bytes : List UInt8}
    (h : t.locate true folder p = .ok place) :
    t.writeFile folder p bytes =
      if t.get? place = some .folder then .error .isADirectory else .ok
        (t.set place (.file bytes)) := by
  rw [Tree.writeFile, h]
  simp only [bind, Except.bind]
  split
  next hget => rw [if_pos hget]
  next hnot => rw [if_neg hnot]

theorem alike_writeBytes (hu : Grown v u) (hbeside : Beside v u w p)
    (hlocate : w.tree.locate true w.folder p = u.tree.locate true u.folder p) (bytes : List UInt8) :
    ∃ r u' w', (Session.writeBytes p bytes).outcome u = (r, u') ∧
      (Session.writeBytes p bytes).outcome w = (r, w') ∧ Alike v p u u' w w' := by
  simp only [Session.outcome_writeBytes_eq]
  cases Session.objection? p with
  | some m => exact ⟨_, u, w, rfl, rfl, .unchanged⟩
  | none =>
    cases hplace : u.tree.locate true u.folder p with
    | error problem =>
      have hfail : ∀ v : Workspace, v.tree.locate true v.folder p = .error problem →
          v.tree.writeFile v.folder p bytes = .error problem := by
        intro v hv
        rw [Tree.writeFile, hv]
        rfl
      rw [hfail u hplace, hfail w (hlocate.trans hplace)]
      exact ⟨_, u, w, rfl, rfl, .unchanged⟩
    | ok place =>
      obtain rfl : v.place p = place := (hu.place p).symm.trans (Tree.locate_eq_resolve hplace)
      have hget : w.tree.get? (v.place p) = u.tree.get? (v.place p) :=
        (hbeside _ (List.prefix_refl _)).resolve_right fun h => h.2.2 rfl
      rw [Tree.writeFile_eq hplace, Tree.writeFile_eq (hlocate.trans hplace), hget]
      by_cases hfolder : u.tree.get? (v.place p) = some .folder
      · rw [if_pos hfolder, if_pos hfolder]
        exact ⟨_, u, w, rfl, rfl, .unchanged⟩
      · rw [if_neg hfolder, if_neg hfolder]
        have hne : v.place p ≠ [] := Tree.ne_nil_of_get? rfl hfolder
        refine ⟨_, _, _, rfl, rfl, fun q => ?_⟩
        simp only [Tree.get?_set _ _ hne]
        by_cases hq : q = v.place p
        · rw [if_pos hq, if_pos hq]
          exact Or.inr ⟨rfl, Or.inl hq⟩
        · rw [if_neg hq, if_neg hq]
          exact Or.inl ⟨rfl, rfl⟩

/-- Writing a file on a straight path gives the same beside the work of others. -/
theorem alike_writeText (hv : v.tree.Proper) (hu : Grown v u) (hw : Grown v w)
    (hstraight : Straight v p) (hbeside : Beside v u w p) (hready : Ready v p u) (text : String) :
    ∃ r u' w', (Session.writeText p text).outcome u = (r, u') ∧
      (Session.writeText p text).outcome w = (r, w') ∧ Alike v p u u' w w' := by
  have hlocate := locate_eq_beside hv hu hw hstraight hbeside hready
  unfold Session.writeText
  cases Session.encode text with
  | ok bytes => exact alike_writeBytes hu hbeside hlocate bytes
  | error m =>
    obtain ⟨r, u', w', hrun, hrun', halike⟩ := alike_writeBytes hu hbeside hlocate []
    simp only [Session.outcome_bind, hrun, hrun']
    cases r with
    | ok _ => exact ⟨_, u', w', rfl, rfl, halike⟩
    | error f => exact ⟨_, u', w', rfl, rfl, halike⟩

end TypedClients.Files
