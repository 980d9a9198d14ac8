import TypedClients.Files.Changes
import TypedClients.Proofs.Report.Outcome

/-!
# Where paths lead while a tree grows

Files and folders are added to a tree without anything being taken away: folders and links
stay, and a file stays a file. What a path means depends on the links alone, so it means the
same place all along.

* `locate_eq_resolve`: a path that leads somewhere leads to the place that it means.
* `Grows.resolve`, `Grows.locate`: a grown tree has every path mean the same, and lead to the
  same.
* `Proper`: in the tree of a file system, whatever is there is in a folder. Nothing that is
  put where a path leads changes this (`makeFolder_eq_ok`, `writeFile_eq_ok`).
-/

namespace TypedClients.Files.Tree

variable {t t' t'' : Tree} {here place : Place} {parts : List String}
    {mayBeNew : Bool} {links : Nat}

/-! ## Trees of file systems -/

/-- A tree as a file system has it: whatever is there is in a folder. -/
def Proper (t : Tree) : Prop :=
  ∀ above name e, t.get? (above ++ [name]) = some e → t.get? above = some .folder

/-- A place for a file or folder: no link is there, and what is to hold it is a folder. -/
structure Free (t : Tree) (place : Place) : Prop where
  notLink : ∀ target, t.get? place ≠ some (.link target)
  holder : ∀ above name, place = above ++ [name] → t.get? above = some .folder

theorem get?_nil (t : Tree) : t.get? [] = some .folder := if_pos rfl

theorem ne_nil_of_get? {e : Option Entry} (h : t.get? place = e) (he : e ≠ some .folder) :
    place ≠ [] := by
  rintro rfl
  exact he (h.symm.trans (get?_nil t))

theorem append_singleton_ne_nil (place : Place) (name : String) : place ++ [name] ≠ [] := by simp

/-- A tree is one of a file system if each of its entries is in a folder. -/
theorem proper_of_entries (h : ∀ e, e ∈ t.entries → t.get? e.1.dropLast = some .folder) :
    t.Proper := by
  intro above name e hget
  rw [get?, if_neg (append_singleton_ne_nil above name)] at hget
  obtain ⟨es, es', hentries, -⟩ := List.lookup_eq_some_iff.1 hget
  have hfolder := h (above ++ [name], e) (by rw [hentries]; simp)
  rw [List.dropLast_concat] at hfolder
  exact hfolder

/-- What is there is a place for a file or folder, unless it is a link. -/
theorem Proper.free (h : t.Proper) {e : Entry} (hget : t.get? place = some e)
    (he : ∀ target, e ≠ .link target) : t.Free place := by
  refine ⟨fun target hlink => he target (Option.some.inj (hget.symm.trans hlink)), ?_⟩
  rintro above name rfl
  exact h above name e hget

/-- So is a new name in a folder. -/
theorem free_new {name : String} (hhere : t.get? here = some .folder)
    (hnew : t.get? (here ++ [name]) = none) : t.Free (here ++ [name]) := by
  refine ⟨?_, fun above n h => ?_⟩
  · rw [hnew]
    intro target hlink
    cases hlink
  rw [← (List.append_inj' h rfl).1]
  exact hhere

/-- What holds a folder is a folder. -/
theorem Proper.folder_dropLast (h : t.Proper) (hhere : t.get? here = some .folder) :
    t.get? here.dropLast = some .folder := by
  rcases List.eq_nil_or_concat here with rfl | ⟨above, name, rfl⟩
  · exact hhere
  · rw [List.concat_eq_append] at hhere ⊢
    rw [List.dropLast_concat]
    exact h above name _ hhere

/-- A tree stays one of a file system when a file or folder is put where there is a place for
it and no folder is. -/
theorem Proper.set (h : t.Proper) (hfree : t.Free place) (hnot : t.get? place ≠ some .folder)
    (e : Entry) : (t.set place e).Proper := by
  have hne : place ≠ [] := ne_nil_of_get? rfl hnot
  intro above name f hget
  have habove : t.get? above = some .folder := by
    rw [get?_set t e hne] at hget
    split at hget
    next heq => exact hfree.holder above name heq.symm
    next => exact h above name f hget
  rw [get?_set t e hne, if_neg]
  · exact habove
  · rintro rfl
    exact hnot habove

/-- It stays one when something is removed with all that is below it. -/
theorem Proper.removeBelow (h : t.Proper) (place : Place) : (t.removeBelow place).Proper := by
  intro above name e hget
  rw [get?_removeBelow t (append_singleton_ne_nil above name)] at hget
  split at hget
  · cases hget
  next hnot =>
    have habove := h above name e hget
    by_cases hnil : above = []
    · rw [hnil]
      exact get?_nil _
    · rw [get?_removeBelow t hnil, if_neg, habove]
      rw [List.isPrefixOf_iff_prefix] at hnot ⊢
      exact fun hpre => hnot (hpre.trans (List.prefix_append above [name]))

/-! ## A path leads to the place that it means -/

theorem walk_eq_lead {linked : Place → List String → Except SystemProblem Place}
    {linked' : Option (Place → List String → Place)}
    (hlinked : ∀ start rest q, linked start rest = .ok q → ∃ f, linked' = some f ∧ f start rest = q)
    (h : t.walk mayBeNew linked here parts = .ok place) : t.lead linked' here parts = place := by
  induction parts generalizing here with
  | nil => exact Except.ok.inj h
  | cons name rest ih =>
    rw [walk] at h
    rw [lead]
    split at h
    · split at h
      next hparent =>
        rw [if_pos hparent]
        exact ih h
      next hparent =>
        rw [if_neg hparent]
        split at h
        · cases h
        · split at h
          next target hget =>
            obtain ⟨f, rfl, hf⟩ := hlinked _ _ _ h
            simp only [hget]
            exact hf
          next e hnot hget =>
            have hlead : t.lead linked' (here ++ [name]) rest = place := ih h
            rw [← hlead]
            cases e with
            | link target => exact absurd rfl (hnot target)
            | file bytes => simp only [hget]
            | folder => simp only [hget]
          next hget =>
            split at h
            next hlast =>
              obtain rfl : rest = [] := List.isEmpty_iff.1 (Bool.and_eq_true_iff.1 hlast).2
              simp only [hget]
              exact Except.ok.inj h
            next => cases h
    · cases h
    · cases h

theorem follow_eq_resolveFrom (h : t.follow mayBeNew links here parts = .ok place) :
    t.resolveFrom links here parts = place := by
  induction links generalizing here parts place with
  | zero => exact walk_eq_lead (fun _ _ _ hq => by cases hq) h
  | succ links ih => exact walk_eq_lead (fun _ _ _ hq => ⟨_, rfl, ih hq⟩) h

/-- A path leads to the place that it means, if it leads anywhere. -/
theorem locate_eq_resolve {folder : Place} {p : Path} (h : t.locate mayBeNew folder p = .ok place) :
    t.resolve folder p = place := follow_eq_resolveFrom h

/-! ## A path leads to a place for a file or folder -/

theorem walk_free (hproper : t.Proper) {linked : Place → List String → Except SystemProblem Place}
    (hlinked : ∀ start rest q, t.Free start → linked start rest = .ok q → t.Free q)
    (hstart : parts = [] → t.Free here) (h : t.walk mayBeNew linked here parts = .ok place) :
    t.Free place := by
  have hnil : t.Free [] := hproper.free (get?_nil t) (by simp)
  induction parts generalizing here with
  | nil =>
    cases h
    exact hstart rfl
  | cons name rest ih =>
    rw [walk] at h
    split at h
    next hhere =>
      have hfolder : t.Free here := hproper.free hhere (by simp)
      split at h
      · exact ih (fun _ => hproper.free (hproper.folder_dropLast hhere) (by simp)) h
      · split at h
        · cases h
        · split at h
          next target hget =>
            refine hlinked _ _ _ ?_ h
            unfold Path.start
            split
            · exact hfolder
            · exact hnil
          next e hnot hget =>
            exact ih (fun _ => hproper.free hget fun target he => hnot target he) h
          next hget =>
            split at h
            next =>
              cases h
              exact free_new hhere hget
            next => cases h
    · cases h
    · cases h

theorem follow_free (hproper : t.Proper) (hstart : parts = [] → t.Free here)
    (h : t.follow mayBeNew links here parts = .ok place) : t.Free place := by
  induction links generalizing here parts place with
  | zero => exact walk_free hproper (fun _ _ _ _ hq => by cases hq) hstart h
  | succ links ih => exact walk_free hproper (fun _ _ _ hfree hq => ih (fun _ => hfree) hq) hstart h

/-- In a tree of a file system, a path with a name leads to a place for a file or folder. -/
theorem locate_free (hproper : t.Proper) {folder : Place} {p : Path} (hparts : p.parts ≠ [])
    (h : t.locate mayBeNew folder p = .ok place) : t.Free place :=
  follow_free hproper (fun hnil => absurd hnil hparts) h

/-! ## Growing -/

/-- A tree with more than another one: its folders and its links, and files where it has files. -/
structure Grows (t t' : Tree) : Prop where
  folder : ∀ place, t.get? place = some .folder → t'.get? place = some .folder
  link : ∀ place target, t'.get? place = some (.link target) ↔ t.get? place = some (.link target)
  file : ∀ place bytes, t.get? place = some (.file bytes) →
    ∃ bytes', t'.get? place = some (.file bytes')

theorem Grows.refl (t : Tree) : t.Grows t :=
  ⟨fun _ h => h, fun _ _ => Iff.rfl, fun _ bytes h => ⟨bytes, h⟩⟩

theorem Grows.trans (h : t.Grows t') (h' : t'.Grows t'') : t.Grows t'' where
  folder place hget := h'.folder place (h.folder place hget)
  link place target := (h'.link place target).trans (h.link place target)
  file place bytes hget := by
    obtain ⟨bytes', hget'⟩ := h.file place bytes hget
    exact h'.file place bytes' hget'

/-- A tree grows by a folder where nothing was. -/
theorem Grows.set_folder (hnew : t.get? place = none) : t.Grows (t.set place .folder) := by
  have hne : place ≠ [] := ne_nil_of_get? hnew (by simp)
  have hother : ∀ q e, t.get? q = some e → (t.set place .folder).get? q = some e := by
    intro q e hget
    rw [get?_set t .folder hne, if_neg]
    · exact hget
    · rintro rfl
      cases hnew.symm.trans hget
  refine ⟨fun q => hother q _, fun q target => ⟨fun hget => ?_, hother q _⟩,
    fun q bytes hget => ⟨bytes, hother q _ hget⟩⟩
  rw [get?_set t .folder hne] at hget
  split at hget
  · cases hget
  · exact hget

/-- A tree grows by a file, also if it takes the place of another file. -/
theorem Grows.set_file (hfree : t.Free place) (hnot : t.get? place ≠ some .folder)
    (bytes : List UInt8) : t.Grows (t.set place (.file bytes)) := by
  have hne : place ≠ [] := ne_nil_of_get? rfl hnot
  refine ⟨fun q hget => ?_, fun q target => ?_, fun q old hget => ?_⟩
  · rw [get?_set t _ hne, if_neg]
    · exact hget
    · rintro rfl
      exact hnot hget
  · rw [get?_set t _ hne]
    split
    next heq =>
      subst heq
      refine ⟨fun h => ?_, fun h => absurd h (hfree.notLink target)⟩
      cases h
    next => exact Iff.rfl
  · rw [get?_set t _ hne]
    split
    · exact ⟨bytes, rfl⟩
    · exact ⟨old, hget⟩

theorem Grows.lead (h : t.Grows t') (linked : Option (Place → List String → Place)) :
    t'.lead linked here parts = t.lead linked here parts := by
  induction parts generalizing here with
  | nil => rfl
  | cons name rest ih =>
    rw [Tree.lead, Tree.lead]
    split
    · exact ih
    · cases hget : t.get? (here ++ [name]) with
      | some e =>
        cases e with
        | link target =>
          rw [(h.link _ target).2 hget]
          cases linked with
          | none => exact ih
          | some f => rfl
        | folder =>
          rw [h.folder _ hget]
          exact ih
        | file bytes =>
          obtain ⟨bytes', hget'⟩ := h.file _ _ hget
          rw [hget']
          exact ih
      | none =>
        cases hget' : t'.get? (here ++ [name]) with
        | none => exact ih
        | some e =>
          cases e with
          | link target => cases hget.symm.trans ((h.link _ target).1 hget')
          | folder => exact ih
          | file bytes => exact ih

theorem Grows.resolveFrom (h : t.Grows t') : t'.resolveFrom links here parts =
    t.resolveFrom links here parts := by
  induction links generalizing here parts with
  | zero => exact h.lead none
  | succ links ih =>
    have hfun : t'.resolveFrom links = t.resolveFrom links := by
      funext start rest
      exact ih
    rw [Tree.resolveFrom, Tree.resolveFrom, hfun]
    exact h.lead _

/-- A path means the same place in a grown tree. -/
theorem Grows.resolve (h : t.Grows t') (folder : Place) (p : Path) :
    t'.resolve folder p = t.resolve folder p := h.resolveFrom

theorem Grows.walk (h : t.Grows t')
    {linked linked' : Place → List String → Except SystemProblem Place}
    (hlinked : ∀ start rest, linked start rest = .ok place → linked' start rest = .ok place)
    (hthere : t'.get? place ≠ none) (hwalk : t.walk mayBeNew linked here parts = .ok place) :
    t'.walk false linked' here parts = .ok place := by
  induction parts generalizing here with
  | nil => exact hwalk
  | cons name rest ih =>
    rw [Tree.walk] at hwalk ⊢
    split at hwalk
    next hhere =>
      simp only [h.folder _ hhere]
      split at hwalk
      next hparent =>
        rw [if_pos hparent]
        exact ih hwalk
      next hparent =>
        rw [if_neg hparent]
        split at hwalk
        · cases hwalk
        next hlong =>
          rw [if_neg hlong]
          split at hwalk
          next target hget =>
            simp only [(h.link _ target).2 hget]
            exact hlinked _ _ hwalk
          next e hnot hget =>
            cases e with
            | link target => exact absurd rfl (hnot target)
            | folder =>
              simp only [h.folder _ hget]
              exact ih hwalk
            | file bytes =>
              obtain ⟨bytes', hget'⟩ := h.file _ _ hget
              simp only [hget']
              exact ih hwalk
          next hget =>
            split at hwalk
            next hlast =>
              obtain rfl : rest = [] := List.isEmpty_iff.1 (Bool.and_eq_true_iff.1 hlast).2
              cases hwalk
              cases hget' : t'.get? (here ++ [name]) with
              | none => exact absurd hget' hthere
              | some e =>
                cases e with
                | link target => cases hget.symm.trans ((h.link _ target).1 hget')
                | folder => rfl
                | file bytes => rfl
            next => cases hwalk
    · cases hwalk
    · cases hwalk

theorem Grows.follow (h : t.Grows t') (hthere : t'.get? place ≠ none)
    (hfollow : t.follow mayBeNew links here parts = .ok place) :
    t'.follow false links here parts = .ok place := by
  induction links generalizing here parts with
  | zero => exact h.walk (fun _ _ hq => by cases hq) hthere hfollow
  | succ links ih => exact h.walk (fun _ _ hq => ih hq) hthere hfollow

/-- A path leads to the same place in a grown tree, once there is something. -/
theorem Grows.locate (h : t.Grows t') {folder : Place} {p : Path} (hthere : t'.get? place ≠ none)
    (hlocate : t.locate mayBeNew folder p = .ok place) : t'.locate false folder p = .ok place :=
  h.follow hthere hlocate

/-! ## What is put where a path leads -/

theorem content?_set_file (hne : place ≠ []) (bytes : List UInt8) (other : Place) :
    (t.set place (.file bytes)).content? other =
      if other = place then some bytes else t.content? other := by
  unfold content?
  rw [get?_set t _ hne]
  by_cases h : other = place
  · simp only [h, if_true]
  · simp only [h, if_false]

theorem content?_set_folder (hnew : t.get? place = none) (other : Place) :
    (t.set place .folder).content? other = t.content? other := by
  unfold content?
  rw [get?_set t _ (ne_nil_of_get? hnew (by simp))]
  by_cases h : other = place
  · simp only [h, if_true, hnew]
  · simp only [h, if_false]

/-- A new folder is made where there is a place for it and nothing else. -/
theorem makeFolder_eq_ok {folder : Place} {p : Path} (h : t.makeFolder folder p = .ok t') :
    ∃ place, t.Free place ∧ t.get? place = none ∧ t' = t.set place .folder := by
  unfold makeFolder at h
  split at h
  · cases h
  · obtain ⟨_, -, h⟩ := bind_eq_ok.1 h
    cases h
  next name _ _ =>
    obtain ⟨holder, -, h⟩ := bind_eq_ok.1 h
    split at h
    next hholder =>
      split at h
      · cases h
      · split at h
        · cases h
        next hsome =>
          have hnew : t.get? (holder ++ [name]) = none := by simpa using hsome
          exact ⟨_, free_new hholder hnew, hnew, (Except.ok.inj h).symm⟩
    · cases h
    · cases h

/-- A file is written at the place that its path means, unless a folder is there. -/
theorem writeFile_eq_ok (hproper : t.Proper) {folder : Place} {p : Path} {bytes : List UInt8}
    (hparts : p.parts ≠ []) (h : t.writeFile folder p bytes = .ok t') :
    t.locate true folder p = .ok (t.resolve folder p) ∧ t.Free (t.resolve folder p) ∧
      t.get? (t.resolve folder p) ≠ some .folder ∧
      t' = t.set (t.resolve folder p) (.file bytes) := by
  unfold writeFile at h
  obtain ⟨place, hlocate, h⟩ := bind_eq_ok.1 h
  obtain rfl := locate_eq_resolve hlocate
  split at h
  · cases h
  next hnot => exact ⟨hlocate, locate_free hproper hparts hlocate, hnot, (Except.ok.inj h).symm⟩

end TypedClients.Files.Tree
