import TypedClients.Proofs.Files.Parts
import TypedClients.Proofs.Files.Writing
import TypedClients.Proofs.Generation.Files
import TypedClients.Run.Source

/-!
# What is written for a document

The files of a document wait in a queue, each under a path of its own, so none of them takes
the place of another one there. They are written in order; if one of them fails, those before
it stay, and the one that failed may be left empty.

* `files_addFolders_of_generate`: what waits for a document are all its files.
* `outcome_writeFiles_cons`: what becomes of the first of some files.
* `outcome_writeFiles`: files are written, or those before the first one that fails.
* `outcome_write`: what writing the files of a document makes of the surroundings.
-/

namespace TypedClients.Writing

open Files (Path Workspace Write Writes)
open Files.Session

variable {w w' : Workspace} {folder : Path} {files : Ordered String} {out : Output}
  {d : Document} {limit : Nat} {options : Options}

/-- A waiting file as it is written below a folder. -/
def writeOf (folder : Path) (e : String × String) : Write :=
  ⟨folder.below e.1, e.2.toUTF8.toList⟩

/-- The files of a document with their paths and texts. -/
def filesOf (out : Output) : Ordered String :=
  out.folders.flatMap fun f => f.files.map fun file =>
    (Text.joinStrings "/" (f.folder ++ [file.filename]), fileText file.body (Queue.headerOf file))

/-- The files of a document as they are written below a folder. -/
def writesOf (folder : Path) (out : Output) : List Write := (filesOf out).map (writeOf folder)

theorem keys_filesOf : (filesOf out).keys = out.folders.flatMap FolderOutput.paths := by
  simp only [filesOf, Ordered.keys, List.map_flatMap, List.map_map]
  rfl

/-- What is written of some files if one of them fails: those before it, and maybe the file
without its text. -/
def Stopped (files es : List Write) : Prop :=
  ∃ done rest, files = done ++ rest ∧
    (es = done ∨ ∃ next more, rest = next :: more ∧ es = done ++ [⟨next.path, []⟩])

/-- Where anything is written, the first file is. -/
theorem exists_first_of_stopped {first : Write} {more es : List Write}
    (h : Stopped (first :: more) es) (hne : es ≠ []) : ∃ e, e ∈ es ∧ e.path = first.path := by
  obtain ⟨done, rest, hsplit, hend⟩ := h
  cases done with
  | nil =>
    rcases hend with rfl | ⟨next, others, rfl, rfl⟩
    · exact absurd rfl hne
    · exact ⟨_, List.mem_singleton.2 rfl, (congrArg Write.path (List.cons.inj hsplit).1).symm⟩
  | cons e done =>
    obtain ⟨rfl, -⟩ := List.cons.inj hsplit
    rcases hend with rfl | ⟨next, others, -, rfl⟩
    · exact ⟨first, List.mem_cons_self, rfl⟩
    · exact ⟨first, List.mem_cons_self, rfl⟩

/-! ## Nothing waits in the place of something else -/

theorem put_of_not_mem {α : Type} {t : Ordered α} {name : String} (h : name ∉ t.keys) (a : α) :
    t.put name a = t ++ [(name, a)] := by
  induction t with
  | nil => rfl
  | cons e rest ih =>
    obtain ⟨n, b⟩ := e
    rw [Ordered.keys, List.map_cons, List.mem_cons, not_or] at h
    rw [Ordered.put, if_neg fun heq => h.1 heq.symm, ih h.2]
    rfl

/-- Files with new paths come behind those that wait. -/
theorem files_addFolder (q : Queue) (path : List String) (fs : List GeneratedFile)
    (h : (q.files.keys ++ fs.map fun file => Text.joinStrings "/"
      (path ++ [file.filename])).Nodup) :
    q.addFolder path fs = { q with
      files := q.files ++ fs.map fun file =>
        (Text.joinStrings "/" (path ++ [file.filename]),
          fileText file.body (Queue.headerOf file)) } := by
  induction fs generalizing q with
  | nil => simp [Queue.addFolder]
  | cons file rest ih =>
    have hnew : Text.joinStrings "/" (path ++ [file.filename]) ∉ q.files.keys := by
      intro hmem
      rw [List.nodup_append] at h
      exact h.2.2 _ hmem _ List.mem_cons_self rfl
    rw [Queue.addFolder, ih]
    · simp only [Queue.add, put_of_not_mem hnew, List.map_cons, List.append_assoc]
      rfl
    · simp only [Queue.add, put_of_not_mem hnew, Ordered.keys, List.map_append, List.append_assoc]
      exact h

theorem files_addFolders (q : Queue) (folders : List FolderOutput)
    (h : (q.files.keys ++ folders.flatMap FolderOutput.paths).Nodup) :
    q.addFolders folders = { q with
      files := q.files ++ folders.flatMap fun f => f.files.map fun file =>
        (Text.joinStrings "/" (f.folder ++ [file.filename]),
          fileText file.body (Queue.headerOf file)) } := by
  induction folders generalizing q with
  | nil => simp [Queue.addFolders]
  | cons f rest ih =>
    have hstep : q.addFolders (f :: rest) = (q.addFolder f.folder f.files).addFolders rest := rfl
    rw [List.flatMap_cons, ← List.append_assoc] at h
    have hfirst := files_addFolder q f.folder f.files (List.nodup_append.1 h).1
    rw [hstep, hfirst, ih]
    · simp only [List.flatMap_cons, List.append_assoc]
    · have hkeys : (q.files ++ f.files.map fun file =>
          (Text.joinStrings "/" (f.folder ++ [file.filename]),
            fileText file.body (Queue.headerOf file))).keys = q.files.keys ++ f.paths := by
        simp only [Ordered.keys, FolderOutput.paths, List.map_append, List.map_map]
        rfl
      rw [hkeys]
      exact h

/-- What waits for a document are all its files, in order. -/
theorem files_addFolders_of_generate (h : (d.generate limit options).outcome = .ok out)
    (folder : Path) :
    (Queue.empty folder).addFolders out.folders = ⟨folder, filesOf out⟩ := by
  rw [files_addFolders]
  · rfl
  · exact Generation.nodup_paths_of_generate h

/-! ## Writing -/

/-- What joins a folder is no folder without a name, if it has a name itself. -/
theorem below_parts_ne_nil {path : String} (h : (Path.ofString path).parts ≠ []) (folder : Path) :
    (folder.below path).parts ≠ [] := by
  unfold Path.below Path.join
  split
  · exact fun hnil => h (List.append_eq_nil_iff.1 hnil).2
  · exact h

theorem isPart_append_client (t : String) : Path.isPart (t ++ "Client.ts") = true := by
  have hlong : 9 ≤ (t ++ "Client.ts").length := by
    rw [String.length_append]
    exact Nat.le_add_left _ _
  rw [Path.isPart, decide_eq_true_eq]
  constructor
  · intro heq
    rw [heq] at hlong
    exact absurd hlong (by decide)
  · intro heq
    rw [heq] at hlong
    exact absurd hlong (by decide)

/-- The path of each file has a name. -/
theorem parts_ne_nil_of_mem_filesOf (h : (d.generate limit options).outcome = .ok out)
    {e : String × String} (he : e ∈ filesOf out) : (Path.ofString e.1).parts ≠ [] := by
  obtain ⟨f, hf, he⟩ := List.mem_flatMap.1 he
  obtain ⟨file, hfile, rfl⟩ := List.mem_map.1 he
  have hpath : Text.joinStrings "/" (f.folder ++ [file.filename]) ∈ f.paths :=
    List.mem_map_of_mem hfile
  rw [((Generation.folders_of_generate h).2 f hf).1.paths] at hpath
  rcases List.mem_pair.1 hpath with heq | heq
  · rw [heq, Path.parts_append_slash]
    exact fun hnil => absurd (List.append_eq_nil_iff.1 hnil).2 (by decide)
  · obtain ⟨inside, last, hparts, -⟩ :=
      Path.exists_parts_append (String.join f.folder) "Client.ts" (by decide)
        isPart_append_client
    rw [heq, Path.parts_append_slash, hparts]
    simp

/-- Writing a file can be begun: the folders above it are there or can be made, and a file can
be put there. -/
def Begins (folder : Path) (path : String) (w : Workspace) : Prop :=
  ((makeFolders (folder.below path).parent).outcome w).1 = .ok () ∧
    Takes ((makeFolders (folder.below path).parent).outcome w).2 (folder.below path)

/-- Writing some files can be begun. -/
def Starts (folder : Path) (files : Ordered String) (w : Workspace) : Prop :=
  ∃ first more, files = first :: more ∧ Begins folder first.1 w

/-- The first of some files cannot be begun, or is left empty, or is written before the others. -/
theorem outcome_writeFiles_cons {e : String × String} {r : Except Failure (List Path)}
    (hproper : w.tree.Proper) (hname : (Path.ofString e.1).parts ≠ [])
    (h : (Queue.writeFiles folder (e :: files)).outcome w = (r, w')) :
    (¬ Begins folder e.1 w ∧ (∃ f, r = .error f) ∧ Writes w [] w') ∨
      Begins folder e.1 w ∧ (((∃ f, r = .error f) ∧ Writes w [⟨folder.below e.1, []⟩] w') ∨
        ∃ v others, Writes w [writeOf folder e] v ∧
          (Queue.writeFiles folder files).outcome v = (others, w') ∧
          r = others.map (folder.below e.1 :: ·)) := by
  obtain ⟨path, text⟩ := e
  have hfolders := makesFolders_makeFolders (folder.below path).parent w hproper
  rcases outcome_bind_cases h with ⟨f, hmake, rfl⟩ | ⟨_, v, hmake, h⟩
  · refine Or.inl ⟨fun hbegins => ?_, ⟨f, rfl⟩, ?_⟩
    · rw [Begins, hmake] at hbegins
      cases hbegins.1
    · rw [hmake] at hfolders
      exact hfolders
  have hbegins : Begins folder path w ↔ Takes v (folder.below path) := by
    rw [Begins, hmake]
    exact and_iff_right rfl
  rw [hmake] at hfolders
  rw [hbegins]
  have hparts := below_parts_ne_nil hname folder
  rcases outcome_bind_cases h with ⟨f, hwrite, rfl⟩ | ⟨_, u, hwrite, h⟩
  · rcases outcome_writeText hfolders.proper hparts hwrite with
      ⟨hnot, -, rfl⟩ | ⟨htakes, ⟨hr, -⟩ | ⟨-, hempty⟩⟩
    · exact Or.inl ⟨hnot, ⟨f, rfl⟩, hfolders⟩
    · cases hr
    · exact Or.inr ⟨htakes, Or.inl ⟨⟨f, rfl⟩, hfolders.trans hempty⟩⟩
  rcases outcome_writeText hfolders.proper hparts hwrite with
    ⟨-, ⟨_, hr⟩, -⟩ | ⟨htakes, ⟨-, hwritten⟩ | ⟨⟨_, hr⟩, -⟩⟩
  · cases hr
  · refine Or.inr ⟨htakes, Or.inr ⟨u, ((Queue.writeFiles folder files).outcome u).1,
      hfolders.trans hwritten, ?_⟩⟩
    rw [outcome_bind] at h
    revert h
    generalize (Queue.writeFiles folder files).outcome u = q
    obtain ⟨f | targets, v'⟩ := q
    · intro h
      cases h
      exact ⟨rfl, rfl⟩
    · intro h
      cases h
      exact ⟨rfl, rfl⟩
  · cases hr

/-- Files are written in order, or those before the first one that fails. Something is written
then exactly if the first one can be begun. -/
theorem outcome_writeFiles {r : Except Failure (List Path)} (hproper : w.tree.Proper)
    (hparts : ∀ e, e ∈ files → (Path.ofString e.1).parts ≠ [])
    (h : (Queue.writeFiles folder files).outcome w = (r, w')) :
    (r = .ok (files.map fun e => folder.below e.1) ∧ Writes w (files.map (writeOf folder)) w') ∨
      ∃ f es, r = .error f ∧ Stopped (files.map (writeOf folder)) es ∧ Writes w es w' ∧
        (es ≠ [] ↔ Starts folder files w) := by
  induction files generalizing w r with
  | nil =>
    cases h
    exact Or.inl ⟨rfl, .refl hproper⟩
  | cons e rest ih =>
    have hstarts : Starts folder (e :: rest) w ↔ Begins folder e.1 w := by
      constructor
      · rintro ⟨first, more, heq, hbegins⟩
        rw [(List.cons.inj heq).1]
        exact hbegins
      · exact fun hbegins => ⟨e, rest, rfl, hbegins⟩
    rw [hstarts]
    rcases outcome_writeFiles_cons hproper (hparts e List.mem_cons_self) h with
      ⟨hnot, ⟨f, rfl⟩, hnone⟩ | ⟨hbegins, ⟨⟨f, rfl⟩, hempty⟩ | ⟨v, others, hfirst, hrest, rfl⟩⟩
    · exact Or.inr ⟨f, [], rfl, ⟨[], _, rfl, Or.inl rfl⟩, hnone, by simp [hnot]⟩
    · exact Or.inr ⟨f, _, rfl, ⟨[], _, rfl, Or.inr ⟨_, _, rfl, rfl⟩⟩, hempty, by simp [hbegins]⟩
    · rcases ih hfirst.proper (fun e he => hparts e (List.mem_cons_of_mem _ he)) hrest with
        ⟨rfl, hes⟩ | ⟨f, es, rfl, ⟨done, left, hsplit, hend⟩, hes, -⟩
      · exact Or.inl ⟨rfl, hfirst.trans hes⟩
      · refine Or.inr ⟨f, writeOf folder e :: es, rfl, ⟨writeOf folder e :: done, left, ?_, ?_⟩,
          hfirst.trans hes, by simp [hbegins]⟩
        · rw [List.map_cons, hsplit, List.cons_append]
        · rcases hend with rfl | ⟨next, more, hleft, rfl⟩
          · exact Or.inl rfl
          · exact Or.inr ⟨next, more, hleft, rfl⟩

/-- The files of a document are written, or those before the first one that fails. -/
theorem outcome_write (hgenerate : (d.generate limit options).outcome = .ok out)
    {r : Except Failure (List Path)} (hproper : w.tree.Proper)
    (h : (((Queue.empty folder).addFolders out.folders).write).outcome w = (r, w')) :
    (r = .ok ((writesOf folder out).map Write.path) ∧ Writes w (writesOf folder out) w') ∨
      ∃ f es, r = .error f ∧ Stopped (writesOf folder out) es ∧ Writes w es w' := by
  rw [files_addFolders_of_generate hgenerate] at h
  have hparts := fun e he => parts_ne_nil_of_mem_filesOf (e := e) hgenerate he
  rcases outcome_bind_cases h with ⟨f, hwrite, rfl⟩ | ⟨targets, v, hwrite, h⟩
  · rcases outcome_writeFiles hproper hparts hwrite with ⟨hr, -⟩ | ⟨f, es, hr, hstopped, hes, -⟩
    · cases hr
    · exact Or.inr ⟨f, es, hr, hstopped, hes⟩
  · cases h
    rcases outcome_writeFiles hproper hparts hwrite with ⟨hr, hes⟩ | ⟨_, _, hr, -⟩
    · cases hr
      refine Or.inl ⟨?_, hes⟩
      rw [writesOf, List.map_map]
      rfl
    · cases hr

end TypedClients.Writing
