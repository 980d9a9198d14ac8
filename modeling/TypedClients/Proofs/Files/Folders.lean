import Mathlib.Data.List.Induction
import TypedClients.Proofs.Files.Settled

/-!
# Making folders one in another

Some names behind a folder that is there lead from one to the next, as long as folders have
them. To make the folder that they lead to means to make those that are missing. It goes wrong
only where a file is in the way, and then nothing is made.

* `walk_folders`, `walk_missing`: names lead through folders to where the first one has no folder.
* `outcome_makeFolders_of_file`: with a file in the way nothing is made.
* `outcome_makeFolders_new`: without one, exactly the folders on the way are there afterwards.
-/

namespace TypedClients.Files

/-- A name as it can be behind a folder: it leads into it, and is not too long. -/
def IsOrdinary (name : String) : Prop := name ≠ ".." ∧ name.utf8ByteSize ≤ Tree.maxNameBytes

instance (name : String) : Decidable (IsOrdinary name) := inferInstanceAs (Decidable (_ ∧ _))

namespace Tree

variable {t : Tree} {here above place : Place} {name : String} {names rest : List String}
  {mayBeNew : Bool} {linked : Place → List String → Except SystemProblem Place} {e : Entry}

/-- All that is above something is a folder. -/
theorem Proper.folder_above (h : t.Proper) (hbelow : above <+: place) (hne : above ≠ place)
    (hget : t.get? place = some e) : t.get? above = some .folder := by
  obtain ⟨names, rfl⟩ := hbelow
  induction names using List.reverseRecOn generalizing e with
  | nil => exact absurd (List.append_nil _).symm hne
  | append_singleton init name ih =>
    rw [← List.append_assoc] at hget
    have hinit := h _ _ _ hget
    by_cases hnil : init = []
    · rw [hnil, List.append_nil] at hinit
      exact hinit
    · refine ih (fun heq => hnil ?_) hinit
      exact List.append_right_eq_self.1 heq.symm

/-- Below a place where nothing is, nothing is. -/
theorem Proper.none_below (h : t.Proper) (hnone : t.get? above = none) (hbelow : above <+: place) :
    t.get? place = none := by
  cases hget : t.get? place with
  | none => rfl
  | some e =>
    by_cases heq : above = place
    · subst heq
      cases hnone.symm.trans hget
    · cases hnone.symm.trans (h.folder_above hbelow heq hget)

theorem walk_name (hhere : t.get? here = some .folder) (hname : IsOrdinary name) :
    t.walk mayBeNew linked here (name :: rest) =
      match t.get? (here ++ [name]) with
      | some (.link target) => linked (target.start here) (target.parts ++ rest)
      | some _ => t.walk mayBeNew linked (here ++ [name]) rest
      | none => if mayBeNew && rest.isEmpty then .ok (here ++ [name]) else .error .missing := by
  rw [walk, hhere]
  exact (if_neg hname.1).trans (if_neg (Nat.not_lt.2 hname.2))

/-- Names of folders one in another lead to the last one. -/
theorem walk_folders (hproper : t.Proper) (hnames : ∀ n, n ∈ names → IsOrdinary n)
    (hfolder : t.get? (here ++ names) = some .folder) :
    t.walk mayBeNew linked here (names ++ rest) = t.walk mayBeNew linked (here ++ names) rest := by
  induction names generalizing here with
  | nil => rw [List.append_nil, List.nil_append]
  | cons name names ih =>
    have hsplit : here ++ name :: names = here ++ [name] ++ names := List.append_cons _ _ _
    have hhere : t.get? here = some .folder :=
      hproper.folder_above (List.prefix_append _ _) (by simp) hfolder
    have hname : t.get? (here ++ [name]) = some .folder := by
      by_cases hnil : names = []
      · rw [hnil] at hfolder
        exact hfolder
      · rw [hsplit] at hfolder
        exact hproper.folder_above (List.prefix_append _ _) (by simpa using hnil) hfolder
    rw [List.cons_append, walk_name hhere (hnames _ List.mem_cons_self), hname, hsplit]
    rw [hsplit] at hfolder
    exact ih (fun n hn => hnames n (List.mem_cons_of_mem _ hn)) hfolder

/-- Names lead nowhere if nothing is where they would lead, and only folders are on the way. -/
theorem walk_missing (hnames : ∀ n, n ∈ names → IsOrdinary n)
    (hhere : t.get? here = some .folder)
    (hway : ∀ q, here <+: q → q <+: here ++ names → t.get? q = none ∨ t.get? q = some .folder)
    (hnone : t.get? (here ++ names) = none) :
    t.walk false linked here names = .error .missing := by
  induction names generalizing here with
  | nil =>
    rw [List.append_nil] at hnone
    cases hnone.symm.trans hhere
  | cons name names ih =>
    have hsplit : here ++ name :: names = here ++ [name] ++ names := List.append_cons _ _ _
    rw [walk_name hhere (hnames _ List.mem_cons_self)]
    rw [hsplit] at hway hnone
    rcases hway (here ++ [name]) (List.prefix_append _ _)
      (List.prefix_append _ _) with hname | hname
    · rw [hname]
      rfl
    · rw [hname]
      refine ih (fun n hn => hnames n (List.mem_cons_of_mem _ hn)) hname (fun q hq hq' => ?_) hnone
      exact hway q ((List.prefix_append _ _).trans hq) hq'

/-- Names do not lead past a file. -/
theorem walk_file (hproper : t.Proper) {bytes : List UInt8} (hnames : ∀ n, n ∈ names → IsOrdinary n)
    (hname : IsOrdinary name) (hfile : t.get? (here ++ names ++ [name]) = some (.file bytes)) :
    t.walk mayBeNew linked here (names ++ name :: rest) =
      if rest = [] then .ok (here ++ names ++ [name]) else .error .notADirectory := by
  have hfolder := hproper _ _ _ hfile
  rw [walk_folders hproper hnames hfolder, walk_name hfolder hname, hfile]
  cases rest with
  | nil => rfl
  | cons n rest =>
    change t.walk mayBeNew linked (here ++ names ++ [name]) (n :: rest) = _
    rw [walk, hfile]
    rfl

end Tree

/-! ## What a folder can be asked about -/

theorem mem_joinStrings_append {sep : String} {ps qs : List String} {c : Char}
    (h : c ∈ (Text.joinStrings sep ps).toList) : c ∈ (Text.joinStrings sep (ps ++ qs)).toList := by
  induction ps with
  | nil => cases h
  | cons s ps ih =>
    cases ps with
    | nil =>
      cases qs with
      | nil => exact h
      | cons q qs =>
        change c ∈ (s ++ sep ++ Text.joinStrings sep (q :: qs)).toList
        rw [Text.joinStrings] at h
        simp only [String.toList_append, List.mem_append]
        exact Or.inl (Or.inl h)
    | cons t ps =>
      change c ∈ (s ++ sep ++ Text.joinStrings sep (t :: ps ++ qs)).toList
      rw [Text.joinStrings] at h
      simp only [String.toList_append, List.mem_append] at h ⊢
      rcases h with h | h
      · exact Or.inl h
      · exact Or.inr (ih h)

namespace Session

/-- A path can be asked about if a path behind it can. -/
theorem objection?_of_append {slashes : Nat} {ps qs : List String}
    (h : objection? ⟨slashes, ps ++ qs⟩ = none) : objection? ⟨slashes, ps⟩ = none := by
  unfold objection? at h ⊢
  split at h
  · cases h
  next hruns =>
    split at h
    · cases h
    next hnull =>
      rw [Text.Surrogate.firstRun?_eq_none_iff] at hruns
      have hruns' : Text.Surrogate.firstRun? (!Text.Surrogate.isByte ·)
          (Path.text ⟨slashes, ps⟩).toList = none := by
        rw [Text.Surrogate.firstRun?_eq_none_iff]
        intro c hc
        by_cases hdot : slashes = 0 ∧ ps = []
        · rw [Path.text, if_pos hdot] at hc
          obtain rfl : c = '.' := List.mem_singleton.1 hc
          intro n hn
          cases (show Text.Surrogate.half? '.' = none by decide).symm.trans hn
        · refine hruns c ?_
          rw [Path.text, if_neg hdot, String.toList_append, List.mem_append] at hc
          rw [Path.text, if_neg fun hall => hdot ⟨hall.1, (List.append_eq_nil_iff.1 hall.2).1⟩,
            String.toList_append, List.mem_append]
          exact hc.imp_right mem_joinStrings_append
      rw [hruns', if_neg]
      simp only [Path.hasNull, List.any_append, Bool.or_eq_true, not_or] at hnull
      exact hnull.1

end Session

/-! ## Folders behind a folder -/

/-- Between two places, one above the other, folders are made as far as they are missing. -/
structure MadeBetween (w : Workspace) (above below : Place) (w' : Workspace) : Prop where
  there : ∀ q, above <+: q → q <+: below → w'.tree.get? q = some .folder
  others : ∀ q, ¬ (above <+: q ∧ q <+: below) → w'.tree.get? q = w.tree.get? q

/-- No folder is made if the last one is there. -/
theorem MadeBetween.refl {w : Workspace} {above below : Place} (hproper : w.tree.Proper)
    (hfolder : w.tree.get? below = some .folder) : MadeBetween w above below w where
  there q _ hq' := by
    by_cases heq : q = below
    · rw [heq, hfolder]
    · exact hproper.folder_above hq' heq hfolder
  others q _ := rfl

/-- One more folder. -/
theorem MadeBetween.snoc {w v w' : Workspace} {above below : Place} {name : String}
    (h : MadeBetween w above below v) (hbelow : above <+: below)
    (hname : ∀ q, w'.tree.get? q = if q = below ++ [name] then some .folder else v.tree.get? q) :
    MadeBetween w above (below ++ [name]) w' where
  there q hq hq' := by
    rw [hname]
    split
    next => rfl
    next hne => exact h.there q hq ((List.prefix_concat_iff.1 hq').resolve_left hne)
  others q hq := by
    rw [hname, if_neg, h.others]
    · exact fun hbetween => hq ⟨hbetween.1, hbetween.2.trans (List.prefix_append _ _)⟩
    · rintro rfl
      exact hq ⟨hbelow.trans (List.prefix_append _ _), List.prefix_refl _⟩

/-- The first parts of some paths lead to a folder. -/
structure Leads (w : Workspace) (slashes : Nat) (front : List String) (holder : Place) : Prop where
  located : w.tree.locate false w.folder ⟨slashes, front⟩ = .ok holder
  folder : w.tree.get? holder = some .folder

namespace Leads

variable {w : Workspace} {slashes : Nat} {front names init rest : List String} {name : String}
  {holder place : Place} {bytes : List UInt8}

theorem settled (h : Leads w slashes front holder) :
    w.tree.locate false w.folder ⟨slashes, front⟩ ≠ .error .missing := by
  rw [h.located]
  intro heq
  cases heq

theorem grown {w' : Workspace} (h : Leads w slashes front holder) (hw : Grown w w') :
    Leads w' slashes front holder :=
  ⟨(hw.locate_eq h.settled).trans h.located, hw.grows.folder _ h.folder⟩

theorem makeFolder_missing (h : Leads w slashes front holder)
    (hinit : ∀ n, n ∈ init → IsOrdinary n) (hname : IsOrdinary name)
    (hway : ∀ q, holder <+: q → q <+: holder ++ init →
      w.tree.get? q = none ∨ w.tree.get? q = some .folder)
    (hnone : w.tree.get? (holder ++ init) = none) :
    w.tree.makeFolder w.folder ⟨slashes, front ++ init ++ [name]⟩ = .error .missing := by
  obtain ⟨linked, hlinked⟩ := Tree.exists_locate_append h.located
  rw [Tree.makeFolder_name _ _ _ _ hname.1, hlinked, Tree.walk_missing hinit h.folder hway hnone]
  rfl

theorem locate_folder (h : Leads w slashes front holder) (hproper : w.tree.Proper)
    (hnames : ∀ n, n ∈ names → IsOrdinary n)
    (hfolder : w.tree.get? (holder ++ names) = some .folder) :
    w.tree.locate false w.folder ⟨slashes, front ++ names⟩ = .ok (holder ++ names) := by
  obtain ⟨linked, hlinked⟩ := Tree.exists_locate_append h.located
  have hwalk : w.tree.walk false (linked false) holder (names ++ []) =
      w.tree.walk false (linked false) (holder ++ names) [] :=
      Tree.walk_folders hproper hnames hfolder
  rw [List.append_nil, Tree.walk] at hwalk
  rw [hlinked, hwalk]

theorem makeFolder_last (h : Leads w slashes front holder) (hproper : w.tree.Proper)
    (hinit : ∀ n, n ∈ init → IsOrdinary n) (hname : IsOrdinary name)
    (hfolder : w.tree.get? (holder ++ init) = some .folder) :
    w.tree.makeFolder w.folder ⟨slashes, front ++ init ++ [name]⟩ =
      if (w.tree.get? (holder ++ init ++ [name])).isSome then .error .exists
      else .ok (w.tree.set (holder ++ init ++ [name]) .folder) := by
  rw [Tree.makeFolder_name _ _ _ _ hname.1, h.locate_folder hproper hinit hfolder]
  simp only [bind, Except.bind, hfolder, if_neg (Nat.not_lt.2 hname.2)]

/-- Where a file is in the way. -/
theorem locate_file (h : Leads w slashes front holder) (hproper : w.tree.Proper)
    (hinit : ∀ n, n ∈ init → IsOrdinary n) (hname : IsOrdinary name)
    (hfile : w.tree.get? (holder ++ init ++ [name]) = some (.file bytes)) :
    w.tree.locate false w.folder ⟨slashes, front ++ (init ++ name :: rest)⟩ =
      if rest = [] then .ok (holder ++ init ++ [name]) else .error .notADirectory := by
  obtain ⟨linked, hlinked⟩ := Tree.exists_locate_append h.located
  rw [hlinked, Tree.walk_file hproper hinit hname hfile]

theorem makeFolder_file (h : Leads w slashes front holder) (hproper : w.tree.Proper)
    (hnames : ∀ n, n ∈ init ++ name :: rest → IsOrdinary n)
    (hfile : w.tree.get? (holder ++ init ++ [name]) = some (.file bytes)) :
    w.tree.makeFolder w.folder ⟨slashes, front ++ (init ++ name :: rest)⟩ =
      .error (if rest = [] then .exists else .notADirectory) := by
  have hinit : ∀ n, n ∈ init → IsOrdinary n := fun n hn => hnames n (List.mem_append_left _ hn)
  have hname : IsOrdinary name := hnames _ (List.mem_append_right _ List.mem_cons_self)
  rcases List.eq_nil_or_concat rest with rfl | ⟨rest, last, rfl⟩
  · rw [← List.append_assoc, h.makeFolder_last hproper hinit hname (hproper _ _ _ hfile), hfile]
    rfl
  · have hlast : IsOrdinary last := hnames _ (by simp)
    have hsplit : front ++ (init ++ name :: (rest ++ [last])) =
        front ++ (init ++ name :: rest) ++ [last] := by simp
    rw [List.concat_eq_append, hsplit, Tree.makeFolder_name _ _ _ _ hlast.1,
      h.locate_file hproper hinit hname hfile,
      if_neg (List.append_ne_nil_of_right_ne_nil _ (by simp))]
    by_cases hrest : rest = []
    · rw [if_pos hrest]
      simp only [bind, Except.bind, hfile]
    · rw [if_neg hrest]
      rfl

/-- With a file in the way of some folders nothing is made. -/
theorem outcome_makeFolders_of_file (h : Leads w slashes front holder) (hproper : w.tree.Proper)
    (hnames : ∀ n, n ∈ names → IsOrdinary n) (hfile : w.tree.get? place = some (.file bytes))
    (hbelow : holder <+: place) (hway : place <+: holder ++ names) :
    (Session.makeFolders ⟨slashes, front ++ names⟩).outcome w =
      (.error (match Session.objection? ⟨slashes, front ++ names⟩ with
        | some m => .mishap m
        | none => .system ⟨if place = holder ++ names then .exists else .notADirectory,
            (Path.mk slashes (front ++ names)).text⟩), w) := by
  obtain ⟨done, rfl⟩ := hbelow
  obtain ⟨rest, hrest⟩ := hway
  rw [List.append_assoc] at hrest
  obtain rfl := List.append_cancel_left hrest
  rcases List.eq_nil_or_concat done with rfl | ⟨init, name, rfl⟩
  · rw [List.append_nil] at hfile
    cases hfile.symm.trans h.folder
  rw [List.concat_eq_append, List.append_assoc, List.singleton_append] at hnames ⊢
  rw [List.concat_eq_append, ← List.append_assoc] at hfile
  have hmake := h.makeFolder_file hproper hnames hfile
  have hproblem : (if rest = [] then SystemProblem.exists else .notADirectory) ≠ .missing := by
    split
    · decide
    · decide
  have hplace : holder ++ (init ++ [name]) = holder ++ (init ++ name :: rest) ↔ rest = [] := by simp
  have hfolder : (Session.hasFolder ⟨slashes, front ++ (init ++ name :: rest)⟩).outcome w =
      (.ok false, w) := by
    rw [Session.outcome_hasFolder, Session.outcome_at?, h.locate_file hproper
      (fun n hn => hnames n (List.mem_append_left _ hn))
      (hnames _ (List.mem_append_right _ List.mem_cons_self)) hfile]
    split
    · rfl
    · by_cases hnil : rest = []
      · rw [if_pos hnil]
        simp only [hfile]
        rfl
      · rw [if_neg hnil]
        rfl
  cases hask : Session.objection? ⟨slashes, front ++ (init ++ name :: rest)⟩ with
  | some m => exact Session.outcome_makeFolders_of_objection hask w
  | none =>
    rw [Session.outcome_makeFolders_of_error hproblem hmake hask,
      Session.outcome_settleFolder hproblem, hfolder]
    simp only [hplace]
    rfl

/-- A folder in a folder is made, or is there. -/
theorem outcome_tryMakeFolder_last (h : Leads w slashes front holder) (hproper : w.tree.Proper)
    (hinit : ∀ n, n ∈ init → IsOrdinary n) (hname : IsOrdinary name)
    (hfolder : w.tree.get? (holder ++ init) = some .folder)
    (hlast : w.tree.get? (holder ++ init ++ [name]) = none ∨
      w.tree.get? (holder ++ init ++ [name]) = some .folder)
    (hask : Session.objection? ⟨slashes, front ++ init ++ [name]⟩ = none) :
    ∃ r w', (Session.tryMakeFolder ⟨slashes, front ++ init ++ [name]⟩).outcome w = (.ok r, w') ∧
      (r = none ∨ r = some .exists ∧
        (Session.settleFolder ⟨slashes, front ++ init ++ [name]⟩ .exists).outcome w' =
        (.ok (), w')) ∧
      ∀ q, w'.tree.get? q = if q = holder ++ init ++ [name] then some .folder
      else w.tree.get? q := by
  have hmake := h.makeFolder_last hproper hinit hname hfolder
  rcases hlast with hnone | hthere
  · rw [hnone] at hmake
    refine ⟨none, { w with tree := w.tree.set (holder ++ init ++ [name]) .folder }, ?_,
      Or.inl rfl, ?_⟩
    · rw [Session.outcome_tryMakeFolder, hask, hmake]
      rfl
    · exact fun q => Tree.get?_set _ _ (Tree.append_singleton_ne_nil _ _)
  · rw [hthere] at hmake
    refine ⟨some .exists, w, ?_, Or.inr ⟨rfl, ?_⟩, fun q => ?_⟩
    · rw [Session.outcome_tryMakeFolder, hask, hmake]
      rfl
    · have hnames : ∀ n, n ∈ init ++ [name] → IsOrdinary n := by
        intro n hn
        rcases List.mem_append.1 hn with hn | hn
        · exact hinit n hn
        · rwa [List.mem_singleton.1 hn]
      rw [List.append_assoc] at hthere hask ⊢
      rw [Session.outcome_settleFolder (by decide), Session.outcome_hasFolder,
        Session.outcome_at?, hask, h.locate_folder hproper hnames hthere]
      simp only [hthere]
      rfl
    · split
      next heq => rw [heq, hthere]
      next => rfl

theorem makeFolders_concat (slashes : Nat) (front : List String) (name : String) :
    Session.makeFolders ⟨slashes, front ++ [name]⟩ = (do
      match ← Session.tryMakeFolder ⟨slashes, front ++ [name]⟩ with
      | none => return ()
      | some .missing =>
        Session.makeFolders ⟨slashes, front⟩
        match ← Session.tryMakeFolder ⟨slashes, front ++ [name]⟩ with
        | none => return ()
        | some problem => Session.settleFolder ⟨slashes, front ++ [name]⟩ problem
      | some problem => Session.settleFolder ⟨slashes, front ++ [name]⟩ problem) := by
  rw [Session.makeFolders, List.reverse_append, List.reverse_singleton, List.singleton_append,
    Session.makeFoldersFrom, List.reverse_cons, List.reverse_reverse]
  rfl

/-- Without a file in the way, the folders on it are made as far as they are missing, and
nothing else. -/
theorem outcome_makeFolders_new (h : Leads w slashes front holder) (hproper : w.tree.Proper)
    (hnames : ∀ n, n ∈ names → IsOrdinary n)
    (hway : ∀ q, holder <+: q → q <+: holder ++ names →
      w.tree.get? q = none ∨ w.tree.get? q = some .folder)
    (hask : Session.objection? ⟨slashes, front ++ names⟩ = none) :
    ∃ w', (Session.makeFolders ⟨slashes, front ++ names⟩).outcome w = (.ok (), w') ∧
      MadeBetween w holder (holder ++ names) w' := by
  induction names using List.reverseRecOn with
  | nil =>
    rw [List.append_nil] at hask ⊢
    obtain ⟨problem, hproblem, hmake⟩ := Tree.makeFolder_of_settled h.settled
    refine ⟨w, ?_, by rw [List.append_nil]; exact .refl hproper h.folder⟩
    rw [Session.outcome_makeFolders_of_error hproblem (hmake _ (.refl _)) hask,
      Session.outcome_settleFolder hproblem, Session.outcome_hasFolder, Session.outcome_at?, hask,
      h.located]
    simp only [h.folder]
    rfl
  | append_singleton init name ih =>
    have hinit : ∀ n, n ∈ init → IsOrdinary n := fun n hn => hnames n (List.mem_append_left _ hn)
    have hname : IsOrdinary name := hnames _ (List.mem_append_right _ (List.mem_singleton.2 rfl))
    rw [← List.append_assoc] at hway hask ⊢
    rw [← List.append_assoc]
    have hway' : ∀ q, holder <+: q → q <+: holder ++ init →
        w.tree.get? q = none ∨ w.tree.get? q = some .folder := fun q hq hq' =>
      hway q hq (hq'.trans (List.prefix_append _ _))
    have hlast := hway (holder ++ init ++ [name])
      ((List.prefix_append _ _).trans (List.prefix_append _ _)) (List.prefix_refl _)
    rw [makeFolders_concat]
    rcases hway' (holder ++ init) (List.prefix_append _ _) (List.prefix_refl _) with hnone | hfolder
    · -- the folder that is to hold it is made first
      obtain ⟨v, hv, hmade⟩ := ih hinit hway' (Session.objection?_of_append hask)
      have hwrites := Session.makesFolders_makeFolders ⟨slashes, front ++ init⟩ w hproper
      rw [hv] at hwrites
      have hlast' : v.tree.get? (holder ++ init ++ [name]) = none ∨
          v.tree.get? (holder ++ init ++ [name]) = some .folder := by
        rw [hmade.others _ fun hbetween => absurd hbetween.2.length_le (by simp)]
        exact hlast
      obtain ⟨r, w', htry, hr, hget⟩ :=
        (h.grown hwrites.grown).outcome_tryMakeFolder_last hwrites.proper hinit hname
        (hmade.there _ (List.prefix_append _ _) (List.prefix_refl _)) hlast' hask
      refine ⟨w', ?_, hmade.snoc (List.prefix_append _ _) hget⟩
      rw [Session.outcome_bind, Session.outcome_tryMakeFolder, hask,
        h.makeFolder_missing hinit hname hway' hnone]
      simp only
      rw [Session.outcome_bind, hv]
      simp only
      rw [Session.outcome_bind, htry]
      rcases hr with rfl | ⟨rfl, hsettle⟩
      · rfl
      · exact hsettle
    · obtain ⟨r, w', htry, hr, hget⟩ :=
        h.outcome_tryMakeFolder_last hproper hinit hname hfolder hlast hask
      refine ⟨w', ?_, (MadeBetween.refl hproper hfolder).snoc (List.prefix_append _ _) hget⟩
      rw [Session.outcome_bind, htry]
      rcases hr with rfl | ⟨rfl, hsettle⟩
      · rfl
      · exact hsettle

end Leads

end TypedClients.Files
