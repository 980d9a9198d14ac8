import TypedClients.Proofs.Layout.Paths

/-!
# Which files are written inside the folder of their service

The files of a document are to lie below the output folder, in the folder of their service.
Settings decide whether they do: the name given to a service may have no letter or digit, and
the folder of a rule is taken as it is, with parts that go up.

* `placement_of_generate`: exactly when all files are inside, and what is written then and
  otherwise.
* `writesOf_leaves_output`: a rule that has files written beside the output folder, and a name
  that has them written at the root.
-/

namespace TypedClients.Writing

open Files (Path Place Workspace Write Writes Confined descends)
open Generation (IsFolder insideOf)
open Naming (pascal)

variable {d : Document} {limit : Nat} {options : Options} {out : Output} {folder : Path}
    {w w' : Workspace}

/-- The files of a document, as they are written, are those of its folders. -/
theorem mem_map_writesOf {p : Path} : p ∈ (writesOf folder out).map Write.path ↔
    ∃ f path, f ∈ out.folders ∧ path ∈ f.paths ∧ p = folder.below path := by
  simp only [writesOf, filesOf, FolderOutput.paths, List.map_flatMap, List.map_map,
    List.mem_flatMap, List.mem_map, Function.comp_apply, writeOf]
  constructor
  · rintro ⟨f, hf, file, hfile, rfl⟩
    exact ⟨f, _, hf, ⟨file, hfile, rfl⟩, rfl⟩
  · rintro ⟨f, _, hf, ⟨file, hfile, rfl⟩, rfl⟩
    exact ⟨f, hf, file, hfile, rfl⟩

/-- All paths under which the files of a document are written are inside the folder of the
service. -/
def AllConfined (folder : Path) (out : Output) : Prop :=
  ∀ p, p ∈ (writesOf folder out).map Write.path → Confined folder (pascal out.serviceName) p

theorem allConfined_iff :
    AllConfined folder out ↔ ∀ f, f ∈ out.folders → ∀ path, path ∈ f.paths →
      Confined folder (pascal out.serviceName) (folder.below path) := by
  constructor
  · intro h f hf path hpath
    exact h _ (mem_map_writesOf.2 ⟨f, path, hf, hpath, rfl⟩)
  · intro h p hp
    obtain ⟨f, path, hf, hpath, rfl⟩ := mem_map_writesOf.1 hp
    exact h f hf path hpath

theorem below_of_slashes_ne_zero {path : String} (h : (Path.ofString path).slashes ≠ 0)
    (folder : Path) : folder.below path = Path.ofString path := if_neg h

/-- A confined path has the name of the folder among its parts. -/
theorem not_confined_empty {path : String} (h : (Path.ofString path).slashes ≠ 0) :
    ¬ Confined folder "" (folder.below path) := by
  rintro ⟨inside, file, hpath, -, -⟩
  rw [below_of_slashes_ne_zero h] at hpath
  have hmem : "" ∈ (Path.ofString path).parts := by
    rw [hpath]
    exact List.mem_append_right _ List.mem_cons_self
  exact absurd (List.mem_filter.1 hmem).2 (by decide)

/-- Where the files of a document are written. -/
structure Placement (options : Options) (out : Output) (folder : Path) : Prop where
  /-- Writing that succeeds tells the paths of all files. -/
  written : ∀ w ps w', w.tree.Proper →
    (((Queue.empty folder).addFolders out.folders).write).outcome w = (.ok ps, w') →
      ps = (writesOf folder out).map Write.path
  /-- They are all inside the folder of the service, which is in the output folder, exactly if
  the service has a name in Pascal case and no folder inside the one of the service goes up.
  -/
  confined : AllConfined folder out ↔ out.folders = [] ∨
    pascal out.serviceName ≠ "" ∧ ∀ f, f ∈ out.folders → descends 0 (insideOf f) = true
  /-- So they are if a name is given to the service only with a letter or a digit, and no rule
  names a folder that goes up. -/
  settings : (∀ name, options.serviceName = some name → name ≠ "" → pascal name ≠ "") →
    (∀ rule, rule ∈ options.rules → descends 0 (Path.ofString rule.folder).parts = true) →
      AllConfined folder out
  /-- Without a name in Pascal case, the paths begin at the root, and the output folder does
  not matter. -/
  outside : pascal out.serviceName = "" → ∀ p, p ∈ (writesOf folder out).map Write.path →
    p.slashes ≠ 0 ∧ ∀ other : Path, p ∈ (writesOf other out).map Write.path
  /-- If they are all inside, and no link is where they are written, then no file changes,
  whether writing succeeds or fails, but those inside the folder of the service. -/
  effect : AllConfined folder out → ∀ w, w.tree.Proper →
    (∀ q target, w.place folder ++ [pascal out.serviceName] <+: q →
      w.tree.get? q ≠ some (.link target)) →
    ∀ place,
      ((((Queue.empty folder).addFolders out.folders).write).outcome w).2.tree.content? place ≠
        w.tree.content? place →
      ∃ inner file, place = w.place folder ++ [pascal out.serviceName] ++ inner ++ [file]

theorem confined_iff (h : (d.generate limit options).outcome = .ok out) (folder : Path) :
    AllConfined folder out ↔ out.folders = [] ∨
      pascal out.serviceName ≠ "" ∧ ∀ f, f ∈ out.folders → descends 0 (insideOf f) = true := by
  have hfolders := fun f hf => ((Generation.folders_of_generate h).2 f hf).1
  rw [allConfined_iff]
  by_cases hs : pascal out.serviceName = ""
  · constructor
    · intro hall
      refine Or.inl (List.eq_nil_iff_forall_not_mem.2 fun f hf => ?_)
      obtain ⟨path, hpath⟩ : ∃ path, path ∈ f.paths := by
        rw [(hfolders f hf).paths]
        exact ⟨_, List.mem_cons_self⟩
      have hconfined := hall f hf path hpath
      rw [hs] at hconfined
      exact not_confined_empty ((hfolders f hf).slashes_ne_zero hs hpath) hconfined
    · rintro (hnil | ⟨hne, -⟩)
      · rw [hnil]
        exact fun f hf => absurd hf List.not_mem_nil
      · exact absurd hs hne
  · constructor
    · intro hall
      exact Or.inr ⟨hs, fun f hf => ((hfolders f hf).confined_iff hs folder).1 (hall f hf)⟩
    · rintro (hnil | ⟨-, hall⟩) f hf
      · rw [hnil] at hf
        exact absurd hf List.not_mem_nil
      · exact ((hfolders f hf).confined_iff hs folder).2 (hall f hf)

/-- What is written of some files is written under their paths. -/
theorem path_mem_of_stopped {files es : List Write} (h : Stopped files es) {e : Write}
    (he : e ∈ es) :
    e.path ∈ files.map Write.path := by
  obtain ⟨done, rest, rfl, rfl | ⟨next, more, rfl, rfl⟩⟩ := h
  · exact List.mem_map_of_mem (List.mem_append_left _ he)
  · rw [List.map_append]
    rcases List.mem_append.1 he with he | he
    · exact List.mem_append_left _ (List.mem_map_of_mem he)
    · rw [List.mem_singleton.1 he]
      exact List.mem_append_right _ List.mem_cons_self

/-- Writing the files of a document, whether it succeeds or not, is writing some of them. -/
theorem exists_writes (folder : Path) (h : (d.generate limit options).outcome = .ok out)
    (hproper : w.tree.Proper) :
    ∃ es, (∀ e, e ∈ es → e.path ∈ (writesOf folder out).map Write.path) ∧
      Writes w es ((((Queue.empty folder).addFolders out.folders).write).outcome w).2 := by
  generalize hrun : (((Queue.empty folder).addFolders out.folders).write).outcome w = q
  obtain ⟨r, w'⟩ := q
  rcases outcome_write h hproper hrun with ⟨-, hwrites⟩ | ⟨_, es, -, hstopped, hwrites⟩
  · exact ⟨_, fun e he => List.mem_map_of_mem he, hwrites⟩
  · exact ⟨es, fun e he => path_mem_of_stopped hstopped he, hwrites⟩

/-- The files of a document are written inside the folder of its service exactly as long as
settings do not lead them out of it. -/
theorem placement_of_generate (h : (d.generate limit options).outcome = .ok out) (folder : Path) :
    Placement options out folder := by
  obtain ⟨p, t, sources, folders, hp, -, -, hout⟩ := Generation.outcome_generate_eq_ok.1 h
  obtain ⟨index, os, -, -, -, rfl⟩ := Generation.outcome_parts_eq_ok.1 hp
  have hfolders := (Generation.folders_of_generate h).2
  refine ⟨?_, confined_iff h folder, ?_, ?_, ?_⟩
  · intro w ps w' hproper hrun
    rcases outcome_write h hproper hrun with ⟨hr, -⟩ | ⟨_, _, hr, -⟩
    · exact Except.ok.inj hr
    · cases hr
  · intro hname hrules
    refine (confined_iff h folder).2 (Or.inr ⟨?_, fun f hf => ?_⟩)
    · rw [hout]
      exact Generation.pascal_serviceName_ne_empty hname
    · obtain ⟨path, hpath⟩ := (hfolders f hf).2
      exact Generation.descends_inside hpath hrules
  · intro hs p hp
    obtain ⟨f, path, hf, hpath, rfl⟩ := mem_map_writesOf.1 hp
    have hroot := (hfolders f hf).1.slashes_ne_zero hs hpath
    refine ⟨?_, fun other => mem_map_writesOf.2 ⟨f, path, hf, hpath, ?_⟩⟩
    · rw [below_of_slashes_ne_zero hroot]
      exact hroot
    · rw [below_of_slashes_ne_zero hroot, below_of_slashes_ne_zero hroot]
  · intro hall w hproper hlinks place hchanged
    obtain ⟨es, hpaths, hwrites⟩ := exists_writes folder h hproper
    have hmem : ∃ e, e ∈ es ∧ w.place e.path = place := by
      refine Classical.byContradiction fun hnone => hchanged (hwrites.content?_of_not_mem ?_)
      exact fun e he heq => hnone ⟨e, he, heq⟩
    obtain ⟨e, he, rfl⟩ := hmem
    exact Files.place_of_confined (hall _ (hpaths e he)) (Generation.pascal_ne_parent _) hlinks

/-- A document with one operation. -/
def oneOperation : Document where
  family := .swagger2
  versionText := "2.0"
  info := ⟨some "Clinic", none, none⟩
  paths := [("/visits/notes", .map [(.str "get", .map [])])]
  definitions := []
  baseUrl := defaultBaseUrl
  root := .map []

/-- Options with a rule for this operation, which names a folder beside the output folder. -/
def elsewhere : Options := { Options.default with rules := [⟨"visits", "../../elsewhere"⟩] }

/-- Options with a name for the service that has no letter or digit. -/
def nameless : Options := { Options.default with serviceName := some "!!" }

theorem placement_of_oneOperation :
    ∃ out, (oneOperation.generate 300 elsewhere).outcome = .ok out ∧
      Placement elsewhere out (Path.ofString "out") := by
  have hrun : (oneOperation.generate 300 elsewhere).outcome.toOption.isSome := by decide +kernel
  obtain ⟨out, hok⟩ := Failure.exists_eq_ok hrun
  exact ⟨out, hok, placement_of_generate hok _⟩

/-- A working folder without files. -/
def emptyWorkspace : Workspace where
  tree := ⟨[(["work"], .folder)]⟩
  folder := ["work"]
  environment := []
  userHome := some "/root"
  system := "Linux"
  input := ""
  replies := []
  refusals := []
  nestingLimit := 300

/-- The rule has the types written beside the output folder, and the name has them written at
the root. -/
theorem writesOf_leaves_output :
    (∃ out, (oneOperation.generate 300 elsewhere).outcome = .ok out ∧
      ∃ p, p ∈ (writesOf (Path.ofString "out") out).map Write.path ∧
        p = ⟨0, ["out", "ClinicService", "..", "..", "elsewhere", "types.ts"]⟩ ∧
        emptyWorkspace.place p = ["work", "elsewhere", "types.ts"] ∧
        emptyWorkspace.place (Path.ofString "out") = ["work", "out"]) ∧
      ∃ out, (oneOperation.generate 300 nameless).outcome = .ok out ∧
        ∃ p, p ∈ (writesOf (Path.ofString "out") out).map Write.path ∧
          p = ⟨1, ["Visits", "types.ts"]⟩ ∧ emptyWorkspace.place p = ["Visits", "types.ts"] := by
  have helsewhere : ((oneOperation.generate 300 elsewhere).outcome.toOption.map fun out =>
      ((writesOf (Path.ofString "out") out).map Write.path).head?) =
      some (some ⟨0, ["out", "ClinicService", "..", "..", "elsewhere", "types.ts"]⟩) := by
    decide +kernel
  have hnameless : ((oneOperation.generate 300 nameless).outcome.toOption.map fun out =>
      ((writesOf (Path.ofString "out") out).map Write.path).head?) =
      some (some ⟨1, ["Visits", "types.ts"]⟩) := by decide +kernel
  obtain ⟨out, hout, hhead⟩ := Option.map_eq_some_iff.1 helsewhere
  obtain ⟨out', hout', hhead'⟩ := Option.map_eq_some_iff.1 hnameless
  refine ⟨⟨out, Failure.eq_ok_of_toOption hout, _, List.mem_of_mem_head? hhead, rfl, ?_, ?_⟩,
    out', Failure.eq_ok_of_toOption hout', _, List.mem_of_mem_head? hhead', rfl, ?_⟩
  · decide +kernel
  · decide +kernel
  · decide +kernel

end TypedClients.Writing
