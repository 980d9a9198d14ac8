import TypedClients.Proofs.Run.Making
import TypedClients.Proofs.Run.Phases

/-!
# A plan and what is made of it

With `planOnly` a document is read and its files are generated as ever, but none is written.
The plan has the name of the service and the tree of the files then, which are settled before
the first file is written; so it tells what is made for real, as long as all files can be
written. Over all documents of a run, one after the other or at the same time, a plan leaves
the files as they are.

* `process_foretells`: a plan for a document foretells what is made of it.
* `onlyRead_step`: a step of a task that only plans has read standard input at most.
* `planOnly_foretells`: no run of plans changes a file either, in whichever order its tasks
  take turns.
-/

namespace TypedClients.Run

open Files (Path Workspace)
open Files.Session
open Writing (Queue filesOf)

variable {s : Settings} {job : Job} {stage : Stage} {source : String} {options : Options}
    {w v w' : Workspace}
  {out : Output} {r : Except Failure Results}

/-! ## One document -/

/-- The tree of the files that wait for a document is the one that its output has. -/
theorem Outputs.preview (h : Outputs source options w out) :
    out.preview = Preview.text (out.folders.flatMap FolderOutput.paths) := by
  obtain ⟨_, document, -, -, hgenerate⟩ := h
  obtain ⟨_, _, _, _, -, -, -, rfl⟩ := Generation.outcome_generate_eq_ok.1 hgenerate
  rfl

/-- The results of a plan for a document and of making it for real, side by side. -/
structure Foretells (source : String) (folder : Path) (options : Options) (w : Workspace)
    (planned real : SourceResult) (w' : Workspace) : Prop where
  /-- If the plan fails, so does the real thing, with the same error and without a trace. -/
  failed : ∀ f, planned.outcome = .error f → real = planned ∧ w' = Document.afterFetch source w
  /-- If the real thing succeeds, so does the plan, with all but the list of files. -/
  succeeded : ∀ made, real.outcome = .ok made →
    planned = { real with outcome := .ok { made with written := [] } }
  /-- The files are then those of the output, group by group, below the folder. -/
  written : ∀ made, real.outcome = .ok made → ∃ out, Outputs source options w out ∧
    made.serviceName = out.serviceName ∧
    made.written = (out.folders.flatMap FolderOutput.paths).map fun path => (folder.below path).text
  /-- The tree shows them, and so does the one of the files that wait to be written. -/
  preview : ∀ made, real.outcome = .ok made → ∀ out, Outputs source options w out →
    made.preview = Preview.text (out.folders.flatMap FolderOutput.paths) ∧
      ((Queue.empty folder).addFolders out.folders).preview = made.preview
  /-- The types of a group come first. -/
  typesFirst : ∀ out, Outputs source options w out → ∀ f, f ∈ out.folders →
    f.paths = [Group.keyOf f.folder ++ "/" ++ "types.ts",
      Group.keyOf f.folder ++ "/" ++ (String.join f.folder ++ "Client.ts")]

theorem process_foretells (source : String) (folder : Path) (options : Options) (w : Workspace) :
    ∃ planned real w', (process source folder options true).outcome w =
        (.ok planned, Document.afterFetch source w) ∧
      (process source folder options false).outcome w = (.ok real, w') ∧
      Foretells source folder options w planned real w' := by
  obtain ⟨s, hs⟩ := exists_settings options
  have htypes : ∀ out, Outputs source options w out → ∀ f, f ∈ out.folders →
      f.paths = [Group.keyOf f.folder ++ "/" ++ "types.ts",
        Group.keyOf f.folder ++ "/" ++ (String.join f.folder ++ "Client.ts")] := by
    intro out hout f hf
    obtain ⟨_, _, -, -, hgenerate⟩ := hout
    exact ((Generation.folders_of_generate hgenerate).2 f hf).1.paths
  have hplanned := outcome_make_plan s ⟨source, options.serviceName, folder⟩ w
  have hprocess := outcome_process source folder options true w
  rw [hs] at hplanned
  rw [hplanned] at hprocess
  refine ⟨_, _, _, hprocess, outcome_process source folder options false w, ?_⟩
  by_cases hout : ∃ out, Outputs source options w out
  · obtain ⟨out, hout⟩ := hout
    have hjob : Outputs source (s.options options.serviceName) w out := hs.symm ▸ hout
    have hreal := outcome_make_of_outputs s ⟨source, options.serviceName, folder⟩ hjob
    have hplan := outcome_plan_of_outputs s ⟨source, options.serviceName, folder⟩ hjob true
    have hmade : ∀ made, ((make source folder options false).outcome w).1 = .ok made →
        made = ⟨out.serviceName, (filesOf out).map fun e => (folder.below e.1).text,
          out.preview⟩ := by
      intro made hok
      rw [hs] at hreal
      rw [hreal, outcome_bind] at hok
      generalize (Queue.writeFiles folder _).outcome _ = q at hok
      obtain ⟨f | ps, v⟩ := q
      · cases hok
      · exact (Except.ok.inj hok).symm
    rw [hplan]
    refine ⟨fun _ hfailed => ?_, fun made hok => ?_, fun made hok => ⟨out, hout, ?_⟩,
      fun made hok out' hout' => ?_, htypes⟩
    · cases hfailed
    · rw [hmade made hok]
      rfl
    · rw [hmade made hok, ← Writing.keys_filesOf, Ordered.keys, List.map_map]
      exact ⟨rfl, rfl⟩
    · obtain rfl := hout.unique hout'
      obtain ⟨_, document, -, -, hgenerate⟩ := hout
      rw [hmade made hok, Queue.preview, Writing.files_addFolders_of_generate hgenerate,
        Writing.keys_filesOf]
      exact ⟨hout'.preview, hout'.preview.symm⟩
  · have hjob : ∀ out, ¬ Outputs source (s.options options.serviceName) w out :=
      hs.symm ▸ not_exists.1 hout
    obtain ⟨f, hplan⟩ := exists_outcome_plan_error s ⟨source, options.serviceName, folder⟩ hjob
    have hreal := outcome_make_eq s false ⟨source, options.serviceName, folder⟩ w
    rw [outcome_bind, hplan] at hreal
    simp only [hs] at hreal
    rw [hplan, hreal]
    refine ⟨fun _ _ => ⟨rfl, rfl⟩, fun _ hok => ?_, fun _ hok => ?_, fun _ hok => ?_, htypes⟩
    all_goals cases hok

/-! ## A run of plans -/

/-- Nothing has changed but that standard input may have been read. -/
def OnlyRead (w w' : Workspace) : Prop := w' = { w with input := w'.input }

theorem OnlyRead.refl (w : Workspace) : OnlyRead w w := rfl

theorem OnlyRead.trans (h : OnlyRead w v) (h' : OnlyRead v w') : OnlyRead w w' := by
  unfold OnlyRead at h h' ⊢
  rw [h', h]

theorem OnlyRead.tree_eq (h : OnlyRead w w') : w'.tree = w.tree := by
  unfold OnlyRead at h
  rw [h]

theorem onlyRead_afterFetch (location : String) (w : Workspace) :
    OnlyRead w (Document.afterFetch location w) := by
  unfold OnlyRead Document.afterFetch
  split
  · rfl
  · rfl

theorem toClear_planOnly (s : Settings) : toClear s true = [] := by
  unfold toClear
  rw [Bool.not_true, Bool.and_false, if_neg Bool.false_ne_true]

/-- A task that has no files to write. -/
def Stage.Idle : Stage → Prop
  | .waiting => True
  | .making _ files => files = []
  | .writing _ _ _ _ => False
  | .done _ => True

/-- A step of a task that only plans leaves it without files, and reads its document at most. -/
theorem onlyRead_step (s : Settings) (job : Job) (h : stage.Idle) (w : Workspace) :
    (stage.step s true job w).1.Idle ∧ OnlyRead w (stage.step s true job w).2 := by
  rw [Stage.step]
  cases stage with
  | waiting =>
    rw [Stage.next, outcome_bind]
    by_cases hout : ∃ out, Outputs job.location (s.options job.serviceName) w out
    · obtain ⟨out, hout⟩ := hout
      rw [outcome_plan_of_outputs s job hout]
      exact ⟨rfl, onlyRead_afterFetch _ _⟩
    · obtain ⟨f, hplan⟩ := exists_outcome_plan_error s job (not_exists.1 hout)
      rw [hplan]
      exact ⟨trivial, onlyRead_afterFetch _ _⟩
  | making made files =>
    obtain rfl : files = [] := h
    exact ⟨trivial, .refl w⟩
  | writing made path text files => exact h.elim
  | done outcome => exact ⟨trivial, .refl w⟩

/-- So do all turns of such tasks. -/
theorem onlyRead_interleaved {before after : List Task × Workspace}
    (h : Interleaved s true before after) (hidle : ∀ task, task ∈ before.1 → task.stage.Idle) :
    (∀ task, task ∈ after.1 → task.stage.Idle) ∧ OnlyRead before.2 after.2 := by
  induction h with
  | refl => exact ⟨hidle, .refl _⟩
  | tail _ hturn ih =>
    obtain ⟨hstill, honly⟩ := ih
    cases hturn with
    | step front back task v =>
      obtain ⟨hstep, hread⟩ := onlyRead_step s task.job (hstill task (by simp)) v
      refine ⟨fun other hother => ?_, honly.trans hread⟩
      rcases List.mem_append.1 hother with hother | hother
      · exact hstill other (List.mem_append_left _ hother)
      · rcases List.mem_cons.1 hother with rfl | hother
        · exact hstep
        · exact hstill other (List.mem_append_right _ (List.mem_cons_of_mem _ hother))

/-- Made at the same time, the documents of a run are read and nothing else. -/
theorem onlyRead_together (h : Together s true w r w') : OnlyRead w w' := by
  cases h with
  | notCleared hclean =>
    rw [toClear_planOnly] at hclean
    cases hclean
  | notListed hclean hlist =>
    rw [toClear_planOnly] at hclean
    cases hclean
    have hsame := reads_collect s (active s) w
    rw [hlist] at hsame
    exact hsame ▸ .refl w
  | done hclean hlist hturns _ =>
    rw [toClear_planOnly] at hclean
    cases hclean
    have hsame := reads_collect s (active s) w
    rw [hlist] at hsame
    obtain ⟨-, honly⟩ := onlyRead_interleaved hturns (by simp [Stage.Idle])
    exact hsame ▸ honly

/-- What a plan does to the files, for one document and for a run over all sources, whichever
way its documents are taken. -/
structure LeavesFiles (source : String) (folder : Path) (options : Options) (s : Settings)
    (w : Workspace) : Prop where
  process : ((process source folder options true).outcome w).2.tree = w.tree
  inTurn : ((inTurn s true).outcome w).2.tree = w.tree
  all : ∀ turns, ((all s true turns).outcome w).2.tree = w.tree
  together : ∀ r w', Together s true w r w' → w'.tree = w.tree

/-- A plan foretells what is made of a document, and changes no file; nor does a run of plans. -/
theorem planOnly_foretells (source : String) (folder : Path) (options : Options) (s : Settings)
    (w : Workspace) :
    (∃ planned real w', (process source folder options true).outcome w =
        (.ok planned, Document.afterFetch source w) ∧
      (process source folder options false).outcome w = (.ok real, w') ∧
      Foretells source folder options w planned real w') ∧
    LeavesFiles source folder options s w := by
  obtain ⟨planned, real, w', hplanned, hreal, hforetells⟩ :=
    process_foretells source folder options w
  refine ⟨⟨planned, real, w', hplanned, hreal, hforetells⟩, ?_,
    (onlyRead_together (together_of_inTurn rfl)).tree_eq,
    fun turns => (onlyRead_together (together_of_all rfl)).tree_eq,
    fun _ _ h => (onlyRead_together h).tree_eq⟩
  rw [hplanned]
  exact Document.afterFetch_tree source w

end TypedClients.Run
