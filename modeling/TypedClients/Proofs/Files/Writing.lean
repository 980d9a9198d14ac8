import TypedClients.Proofs.Files.Places
import TypedClients.Proofs.Files.Reading

/-!
# What files written one after another leave

Writing a file makes the folders above it, as far as they are missing, and puts its bytes at
the place that its path means. The tree grows all along, so paths mean the same from the first
file to the last, and each place holds what was written to it last.

* `Writes`: what some writes make of the surroundings.
* `Writes.trans`: writes after other writes are all of them in their order.
* `Writes.at?`: what a path leads to afterwards.
* `Writes.keepsAll_iff`: when all files are left as they were written.
* `outcome_writeText`: a text is written, or the file is left empty, or nothing can be put there.
-/

namespace TypedClients.Files

variable {α β : Type} {w v w' : Workspace} {es fs : List Write} {p : Path}

/-- A file that is written: its path, and its bytes. -/
structure Write where
  path : Path
  bytes : List UInt8
  deriving DecidableEq, Repr

/-- The bytes that were written last to a place. -/
def lastAt (w : Workspace) (es : List Write) (place : Place) : Option (List UInt8) :=
  (es.reverse.find? fun e => w.place e.path = place).map Write.bytes

/-- What some writes, one after another, make of the surroundings. -/
structure Writes (w : Workspace) (es : List Write) (w' : Workspace) : Prop where
  /-- Only the tree changes. -/
  rest : w' = { w with tree := w'.tree }
  /-- It stays one of a file system. -/
  proper : w'.tree.Proper
  /-- It grows. -/
  grows : w.tree.Grows w'.tree
  /-- A file has the bytes that were written last to its place, or else those that it had. -/
  content : ∀ place, w'.tree.content? place = (lastAt w es place).or (w.tree.content? place)
  /-- Each written path leads to its place. -/
  located : ∀ e, e ∈ es → w'.tree.locate false w.folder e.path = .ok (w.place e.path)

theorem lastAt_nil (w : Workspace) (place : Place) : lastAt w [] place = none := rfl

theorem lastAt_append (w : Workspace) (es fs : List Write) (place : Place) :
    lastAt w (es ++ fs) place = (lastAt w fs place).or (lastAt w es place) := by
  rw [lastAt, List.reverse_append, List.find?_append, Option.map_or]
  rfl

theorem isSome_lastAt_iff {place : Place} :
    (lastAt w es place).isSome ↔ ∃ e, e ∈ es ∧ w.place e.path = place := by
  rw [lastAt, Option.isSome_map, List.find?_isSome]
  simp

theorem lastAt_singleton (w : Workspace) (e : Write) (place : Place) :
    lastAt w [e] place = if place = w.place e.path then some e.bytes else none := by
  by_cases h : place = w.place e.path
  · simp [lastAt, h]
  · have h' : w.place e.path ≠ place := fun heq => h heq.symm
    simp [lastAt, h, h']

namespace Writes

theorem refl (h : w.tree.Proper) : Writes w [] w where
  rest := rfl
  proper := h
  grows := .refl _
  content _ := by rw [lastAt_nil, Option.none_or]
  located _ he := absurd he List.not_mem_nil

/-- A path means the same before and after. -/
theorem place (h : Writes w es w') (p : Path) : w'.place p = w.place p := by
  rw [h.rest]
  exact h.grows.resolve w.folder p

theorem folder (h : Writes w es w') : w'.folder = w.folder := by rw [h.rest]

theorem input (h : Writes w es w') : w'.input = w.input := by rw [h.rest]

theorem lastAt (h : Writes w es w') (fs : List Write) (place : Place) :
    lastAt w' fs place = Files.lastAt w fs place := by
  rw [Files.lastAt, Files.lastAt]
  simp only [h.place]

/-- What is left on standard input does not matter. -/
theorem withInput (h : Writes w es w') (input : String) :
    Writes { w with input := input } es { w' with input := input } where
  rest := by
    rw [h.rest]
  proper := h.proper
  grows := h.grows
  content := h.content
  located := h.located

/-- Writes after other writes are all of them in their order. -/
theorem trans (h : Writes w es v) (h' : Writes v fs w') : Writes w (es ++ fs) w' where
  rest := by
    rw [h'.rest, h.rest]
  proper := h'.proper
  grows := h.grows.trans h'.grows
  content place := by
    rw [h'.content, h.content, h.lastAt, lastAt_append, Option.or_assoc]
  located e he := by
    rcases List.mem_append.1 he with he | he
    · have hlast : (Files.lastAt w es (w.place e.path)).isSome :=
        isSome_lastAt_iff.2 ⟨e, he, rfl⟩
      obtain ⟨bytes, hbytes⟩ := Option.isSome_iff_exists.1 hlast
      have hthere : v.tree.get? (w.place e.path) = some (.file bytes) := by
        rw [← Tree.content?_eq_some, h.content, hbytes, Option.some_or]
      obtain ⟨bytes', hthere'⟩ := h'.grows.file _ _ hthere
      exact h'.grows.locate (by rw [hthere']; simp) (h.located e he)
    · rw [← h.folder, ← h.place]
      exact h'.located e he

/-- A path to which something was written leads to a file with the bytes that came last to its
place. -/
theorem at? (h : Writes w es w') {e : Write} (he : e ∈ es) (bytes : List UInt8) :
    w'.tree.at? w'.folder e.path = some (.file bytes) ↔
      Files.lastAt w es (w.place e.path) = some bytes := by
  have hlast : (Files.lastAt w es (w.place e.path)).isSome := isSome_lastAt_iff.2 ⟨e, he, rfl⟩
  rw [Tree.at?, h.folder, h.located e he]
  simp only
  rw [← Tree.content?_eq_some, h.content, Option.or_of_isSome hlast]

/-- A file that was not written to is as it was. -/
theorem content?_of_not_mem (h : Writes w es w') {place : Place}
    (hnot : ∀ e, e ∈ es → w.place e.path ≠ place) :
    w'.tree.content? place = w.tree.content? place := by
  have hlast : Files.lastAt w es place = none := by
    rw [← Option.not_isSome_iff_eq_none, isSome_lastAt_iff]
    rintro ⟨e, he, heq⟩
    exact hnot e he heq
  rw [h.content, hlast, Option.none_or]

end Writes

/-! ## Folders -/

namespace Session

/-- A step that writes no file. -/
def MakesFolders (x : Session α) : Prop := ∀ w, w.tree.Proper → Writes w [] (x.outcome w).2

theorem Reads.makesFolders {x : Session α} (h : Reads x) : MakesFolders x := by
  intro w hproper
  rw [h w]
  exact .refl hproper

theorem MakesFolders.bind {x : Session α} {f : α → Session β} (hx : MakesFolders x)
    (hf : ∀ a, MakesFolders (f a)) : MakesFolders (x >>= f) := by
  intro w hproper
  generalize h : (x >>= f).outcome w = q
  obtain ⟨r, w'⟩ := q
  have hw := hx w hproper
  rcases outcome_bind_cases h with ⟨e, hfail, -⟩ | ⟨a, v, hrun, hrest⟩
  · rw [hfail] at hw
    exact hw
  · rw [hrun] at hw
    have hv := hf a v hw.proper
    rw [hrest] at hv
    exact hw.trans hv

/-- Putting a folder where there is a place for it. -/
theorem writes_set_folder {place : Place} (hproper : w.tree.Proper) (hfree : w.tree.Free place)
    (hnew : w.tree.get? place = none) :
    Writes w [] { w with tree := w.tree.set place .folder } where
  rest := rfl
  proper := hproper.set hfree (by simp [hnew]) _
  grows := .set_folder hnew
  content q := by
    rw [lastAt_nil, Option.none_or]
    exact Tree.content?_set_folder hnew q
  located _ he := absurd he List.not_mem_nil

theorem makesFolders_tryMakeFolder (p : Path) : MakesFolders (tryMakeFolder p) := by
  refine (reads_requireAskable p).makesFolders.bind fun _ => fun w hproper => ?_
  generalize h : outcome _ w = q
  obtain ⟨r, w'⟩ := q
  rcases reads_surroundings.bind_cases h with ⟨e, -, -, rfl⟩ | ⟨a, ha, h⟩
  · exact .refl hproper
  · cases ha
    split at h
    next t ht =>
      cases h
      obtain ⟨place, hfree, hnew, rfl⟩ := Tree.makeFolder_eq_ok ht
      exact writes_set_folder hproper hfree hnew
    next problem hproblem =>
      cases h
      exact .refl hproper

theorem reads_settleFolder (p : Path) (problem : SystemProblem) :
    Reads (settleFolder p problem) := by
  unfold settleFolder
  split
  · exact reads_throw _
  · refine (reads_hasFolder p).bind fun there => ?_
    split
    · exact reads_pure _
    · exact reads_throw _

theorem makesFolders_makeFoldersFrom (slashes : Nat) (names : List String) :
    MakesFolders (makeFoldersFrom slashes names) := by
  induction names with
  | nil =>
    refine (makesFolders_tryMakeFolder _).bind fun r => ?_
    split
    · exact (reads_pure _).makesFolders
    · exact (reads_settleFolder _ _).makesFolders
  | cons name above ih =>
    refine (makesFolders_tryMakeFolder _).bind fun r => ?_
    split
    · exact (reads_pure _).makesFolders
    · refine ih.bind fun _ => (makesFolders_tryMakeFolder _).bind fun r => ?_
      split
      · exact (reads_pure _).makesFolders
      · exact (reads_settleFolder _ _).makesFolders
    · exact (reads_settleFolder _ _).makesFolders

/-- Making a folder and those above it writes no file. -/
theorem makesFolders_makeFolders (p : Path) : MakesFolders (makeFolders p) :=
  makesFolders_makeFoldersFrom _ _

/-! ## Texts -/

/-- Putting a file where its path means. -/
theorem writes_writeFile {t : Tree} {bytes : List UInt8} (hproper : w.tree.Proper)
    (hparts : p.parts ≠ []) (h : w.tree.writeFile w.folder p bytes = .ok t) :
    Writes w [⟨p, bytes⟩] { w with tree := t } := by
  obtain ⟨hlocate, hfree, hnot, rfl⟩ := Tree.writeFile_eq_ok hproper hparts h
  have hne : w.place p ≠ [] := Tree.ne_nil_of_get? rfl hnot
  have hgrows : w.tree.Grows (w.tree.set (w.place p) (.file bytes)) := .set_file hfree hnot bytes
  refine ⟨rfl, hproper.set hfree hnot _, hgrows, fun place => ?_, fun e he => ?_⟩
  · rw [lastAt_singleton]
    refine (Tree.content?_set_file hne bytes place).trans ?_
    split
    · rfl
    · rfl
  · obtain rfl := List.mem_singleton.1 he
    refine hgrows.locate ?_ hlocate
    have hthere : (w.tree.set (w.place p) (.file bytes)).get? (w.place p) = some (.file bytes) := by
      rw [Tree.get?_set _ _ hne, if_pos rfl]
    intro hnone
    cases hthere.symm.trans hnone

theorem outcome_writeBytes {bytes : List UInt8} {r : Except Failure Unit} (hproper : w.tree.Proper)
    (hparts : p.parts ≠ []) (h : (writeBytes p bytes).outcome w = (r, w')) :
    (r = .ok () ∧ Writes w [⟨p, bytes⟩] w') ∨ ∃ f, r = .error f ∧ w' = w := by
  rcases (reads_requireAskable p).bind_cases h with ⟨f, -, rfl, rfl⟩ | ⟨_, -, h⟩
  · exact Or.inr ⟨f, rfl, rfl⟩
  rcases reads_surroundings.bind_cases h with ⟨f, -, rfl, rfl⟩ | ⟨a, ha, h⟩
  · exact Or.inr ⟨f, rfl, rfl⟩
  cases ha
  split at h
  next t ht =>
    cases h
    exact Or.inl ⟨rfl, writes_writeFile hproper hparts ht⟩
  next problem _ =>
    cases h
    exact Or.inr ⟨_, rfl, rfl⟩

/-- A file can be put where a path leads, whatever is to be in it. -/
def Takes (w : Workspace) (p : Path) : Prop := ((writeBytes p []).outcome w).1 = .ok ()

theorem outcome_writeBytes_eq (p : Path) (bytes : List UInt8) (w : Workspace) :
    (writeBytes p bytes).outcome w =
      match objection? p with
      | some m => (.error (.mishap m), w)
      | none =>
        match w.tree.writeFile w.folder p bytes with
        | .ok t => (.ok (), { w with tree := t })
        | .error problem => (.error (.system ⟨problem, p.text⟩), w) := by
  refine (outcome_bind _ _ _).trans ?_
  rw [requireAskable]
  cases objection? p with
  | some m => rfl
  | none =>
    change outcome (match w.tree.writeFile w.folder p bytes with | .ok _ => _ | .error _ => _) w = _
    cases w.tree.writeFile w.folder p bytes with
    | ok t => rfl
    | error problem => rfl

/-- Whether bytes can be written does not depend on them. -/
theorem outcome_writeBytes_fst (p : Path) (bytes bytes' : List UInt8) (w : Workspace) :
    ((writeBytes p bytes).outcome w).1 = ((writeBytes p bytes').outcome w).1 := by
  rw [outcome_writeBytes_eq, outcome_writeBytes_eq]
  cases objection? p with
  | some m => rfl
  | none =>
    simp only [Tree.writeFile]
    cases w.tree.locate true w.folder p with
    | error problem => rfl
    | ok place =>
      simp only [bind, Except.bind]
      cases w.tree.get? place with
      | none => rfl
      | some e =>
        cases e with
        | folder => rfl
        | file _ => rfl
        | link _ => rfl

theorem eq_of_encode {text : String} {bytes : List UInt8} (h : encode text = .ok bytes) :
    bytes = text.toUTF8.toList := by
  unfold encode at h
  split at h
  · exact (Except.ok.inj h).symm
  · cases h

/-- Where a file can be put, a text is written, or the file is left empty; elsewhere nothing
is. -/
theorem outcome_writeText {text : String} {r : Except Failure Unit} (hproper : w.tree.Proper)
    (hparts : p.parts ≠ []) (h : (writeText p text).outcome w = (r, w')) :
    (¬ Takes w p ∧ (∃ f, r = .error f) ∧ w' = w) ∨
      Takes w p ∧ ((r = .ok () ∧ Writes w [⟨p, text.toUTF8.toList⟩] w') ∨
        (∃ f, r = .error f) ∧ Writes w [⟨p, []⟩] w') := by
  unfold writeText at h
  split at h
  next bytes hbytes =>
    obtain rfl := eq_of_encode hbytes
    have hfst := outcome_writeBytes_fst p text.toUTF8.toList [] w
    rw [h] at hfst
    rcases outcome_writeBytes hproper hparts h with ⟨rfl, hwrites⟩ | ⟨f, rfl, rfl⟩
    · exact Or.inr ⟨hfst.symm, Or.inl ⟨rfl, hwrites⟩⟩
    · refine Or.inl ⟨fun htakes => ?_, ⟨f, rfl⟩, rfl⟩
      cases hfst.trans htakes
  next m _ =>
    rcases outcome_bind_cases h with ⟨f, hwrite, rfl⟩ | ⟨_, v, hwrite, h⟩
    · rcases outcome_writeBytes hproper hparts hwrite with ⟨hr, -⟩ | ⟨_, -, rfl⟩
      · cases hr
      · refine Or.inl ⟨fun htakes => ?_, ⟨f, rfl⟩, rfl⟩
        rw [Takes, hwrite] at htakes
        cases htakes
    · cases h
      rcases outcome_writeBytes hproper hparts hwrite with ⟨-, hwrites⟩ | ⟨_, hr, -⟩
      · exact Or.inr ⟨congrArg Prod.fst hwrite, Or.inr ⟨⟨_, rfl⟩, hwrites⟩⟩
      · cases hr

end Session

end TypedClients.Files
