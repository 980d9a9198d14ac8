import TypedClients.Proofs.Document.Rereading
import TypedClients.Proofs.Run.Tasks

/-!
# A task alone and beside others

What a task would do alone, from the surroundings in which all tasks start, is compared with
what it does in the tree in which they all work. Both give the same as long as the others
leave alone the files of this task and its document, and the paths are straight: folders that
others have made are then the only difference.

* `Apart`: jobs that write different files, none above another one, and none of the documents.
* `Alone`: a task that has come so far alone, and what it has changed by itself.
* `Alone.step`: a step beside the others leads to the same stage, and changes the same.
-/

namespace TypedClients.Run

open Files (Path Place Workspace Session Grown Straight Beside Alike Ready Unwritten)
open Files.Session
open Writing (Queue)

variable {s : Settings} {planOnly : Bool} {job other : Job} {task : Task} {stage : Stage}
  {u u' v w w' : Workspace} {p : Path} {q : Place}

/-! ## What jobs read and write -/

/-- The paths under which a job writes its files. -/
def Job.paths (s : Settings) (planOnly : Bool) (v : Workspace) (job : Job) : List Path :=
  match ((plan s planOnly job).outcome v).1 with
  | .ok planned => planned.2.map fun e => job.folder.below e.1
  | .error _ => []

/-- A job whose document is a file. -/
def Job.ReadsFile (job : Job) : Prop :=
  job.location ≠ Document.standardInput ∧ Document.isRemote job.location = false

/-- The path of a document. -/
def Job.source (job : Job) : Path := Path.ofString job.location

/-- A job that writes no file in the place of a file of another job or above it, nor over its
document. -/
structure KeepsOff (s : Settings) (planOnly : Bool) (v : Workspace) (job other : Job) : Prop where
  files : ∀ p, p ∈ job.paths s planOnly v → ∀ q, q ∈ other.paths s planOnly v →
    ¬ v.place p <+: v.place q
  document : ∀ p, p ∈ job.paths s planOnly v → other.ReadsFile → v.place p ≠ v.place other.source

/-- Two jobs of which neither gets in the way of the other. -/
def Parted (s : Settings) (planOnly : Bool) (v : Workspace) (job other : Job) : Prop :=
  KeepsOff s planOnly v job other ∧ KeepsOff s planOnly v other job

theorem Parted.symm (h : Parted s planOnly v job other) : Parted s planOnly v other job :=
  And.symm h

/-- Jobs that write different files, and none of the documents, and whose paths are straight. -/
structure Apart (s : Settings) (planOnly : Bool) (v : Workspace) (jobs : List Job) : Prop where
  parted : jobs.Pairwise (Parted s planOnly v)
  straight : ∀ job, job ∈ jobs → ∀ p, p ∈ job.paths s planOnly v → Straight v p
  straightSource : planOnly = false → ∀ job, job ∈ jobs → job.ReadsFile → Straight v job.source
  /-- What is on standard input can be read once only. -/
  input : jobs.Pairwise fun job other => job.location = Document.standardInput →
    other.location ≠ Document.standardInput

theorem outcome_plan (s : Settings) (planOnly : Bool) (job : Job) (w : Workspace) :
    (plan s planOnly job).outcome w =
      (((plan s planOnly job).outcome w).1, Document.afterFetch job.location w) := by
  refine Prod.ext rfl ((outcome_bind_snd _ (fun _ => ?_) w).trans (Document.outcome_fetch_snd _ w))
  exact (reads_checked _).bind fun _ => (reads_generate _ _).bind fun _ => reads_pure _

/-- Each file that is planned to be written has a name. -/
theorem of_mem_plan {made : Made} {files : Ordered String}
    (h : (plan s planOnly job).outcome w = (.ok (made, files), w')) {e : String × String}
    (he : e ∈ files) :
    planOnly = false ∧ (Path.ofString e.1).parts ≠ [] := by
  rcases outcome_bind_cases h with ⟨_, -, hr⟩ | ⟨root, _, -, h⟩
  · cases hr
  rcases outcome_bind_cases h with ⟨_, -, hr⟩ | ⟨document, _, -, h⟩
  · cases hr
  rcases outcome_bind_cases h with ⟨_, -, hr⟩ | ⟨out, _, hgenerate, h⟩
  · cases hr
  rw [outcome_generate] at hgenerate
  have hout := (Prod.mk.inj hgenerate).1
  dsimp only at h
  rw [Writing.files_addFolders_of_generate hout] at h
  cases h
  cases planOnly with
  | true => cases he
  | false => exact ⟨rfl, Writing.parts_ne_nil_of_mem_filesOf hout he⟩

theorem mem_paths : p ∈ job.paths s planOnly v ↔
    ∃ planned, ((plan s planOnly job).outcome v).1 = .ok planned ∧
      ∃ e, e ∈ planned.2 ∧ job.folder.below e.1 = p := by
  rw [Job.paths]
  cases ((plan s planOnly job).outcome v).1 with
  | ok planned => simp
  | error f => simp

theorem of_mem_paths (h : p ∈ job.paths s planOnly v) : planOnly = false ∧ p.parts ≠ [] := by
  obtain ⟨planned, hplan, e, he, rfl⟩ := mem_paths.1 h
  have hrun := outcome_plan s planOnly job v
  rw [hplan] at hrun
  obtain ⟨honly, hname⟩ := of_mem_plan hrun he
  exact ⟨honly, Writing.below_parts_ne_nil hname _⟩

/-- The files for a document are planned as before, unless another job has written the
document or has read what was on standard input. -/
theorem outcome_plan_fst (hv : v.tree.Proper) (hw : Grown v w)
    (hinput : job.location = Document.standardInput → w.input = v.input)
    (hsource : job.ReadsFile →
      (Straight v job.source ∨ w.tree.Grows v.tree) ∧ Unwritten v w job.source) :
    ((plan s planOnly job).outcome w).1 = ((plan s planOnly job).outcome v).1 := by
  have hfetch := Document.outcome_fetch_fst hv hw hinput fun hlocation hremote =>
    hsource ⟨hlocation, hremote⟩
  have hlimit : ((Document.fetch job.location).outcome w).2.nestingLimit =
      ((Document.fetch job.location).outcome v).2.nestingLimit := by
    rw [Document.outcome_fetch_snd, Document.outcome_fetch_snd, Document.afterFetch_nestingLimit,
      Document.afterFetch_nestingLimit, hw.rest]
  refine outcome_bind_fst hfetch fun root => outcome_bind_fst ?_ fun document =>
    outcome_bind_fst ?_ fun out => ?_
  · rw [outcome_checked, outcome_checked]
  · rw [outcome_generate, outcome_generate, outcome_checked, outcome_checked, hlimit]
  · simp only [outcome_pure]

/-! ## A task alone -/

/-- What a job changes by itself in some surroundings: the place of a file, or a new folder on
the way to one. -/
def Reached (s : Settings) (planOnly : Bool) (v : Workspace) (job : Job) (u : Workspace)
    (q : Place) : Prop :=
  (∃ p, p ∈ job.paths s planOnly v ∧ q = v.place p) ∨
    v.tree.get? q = none ∧ u.tree.get? q = some .folder ∧
      ∃ p, p ∈ job.paths s planOnly v ∧ q <+: v.place p

/-- What is known at a stage of the files that are still to be written. -/
def Fits (s : Settings) (planOnly : Bool) (v : Workspace) (job : Job) (u : Workspace) : Stage → Prop
  | .waiting => u = v
  | .making _ files => ∀ e, e ∈ files → job.folder.below e.1 ∈ job.paths s planOnly v
  | .writing _ path _ files => job.folder.below path ∈ job.paths s planOnly v ∧
      Ready v (job.folder.below path) u ∧ ∀ e, e ∈ files →
      job.folder.below e.1 ∈ job.paths s planOnly v
  | .done _ => True

/-- A task that has come so far alone, and the surroundings that it has made by itself. -/
structure Alone (s : Settings) (planOnly : Bool) (v : Workspace) (task : Task) (u : Workspace) :
    Prop where
  grown : Grown v u
  /-- What is left to be done gives what the job gives from the start. -/
  rest : (task.stage.rest s planOnly task.job).outcome u =
    (make task.job.location task.job.folder (s.options task.job.serviceName) planOnly).outcome v
  reached : ∀ q, u.tree.get? q ≠ v.tree.get? q → Reached s planOnly v task.job u q
  input : u.input = v.input ∨ u.input = "" ∧ task.job.location = Document.standardInput
  fits : Fits s planOnly v task.job u task.stage

/-- The task has made a step. -/
theorem Alone.moved (h : Alone s planOnly v task u)
    (hstep : task.stage.step s planOnly task.job u = (stage, u')) (hgrown : Grown v u')
    (hchange : ∀ q, u'.tree.get? q = u.tree.get? q ∨ Reached s planOnly v task.job u' q)
    (hinput : u'.input = u.input ∨ u'.input = "" ∧ task.job.location = Document.standardInput)
    (hfits : Fits s planOnly v task.job u' stage) : Alone s planOnly v ⟨task.job, stage⟩ u' where
  grown := hgrown
  rest := by
    have hrest := outcome_rest_step s planOnly task.job task.stage u
    rw [hstep] at hrest
    exact hrest.trans h.rest
  reached q hne := by
    rcases hchange q with heq | hreached
    · rw [heq] at hne
      rcases h.reached q hne with hfile | ⟨hnone, hfolder, hway⟩
      · exact Or.inl hfile
      · exact Or.inr ⟨hnone, heq.trans hfolder, hway⟩
    · exact hreached
  input := by
    rcases hinput with heq | hread
    · rw [heq]
      exact h.input
    · exact Or.inr hread
  fits := hfits

theorem reached_of_alike (h : Alike v p u u' w w') (hp : p ∈ job.paths s planOnly v) (q : Place) :
    u'.tree.get? q = u.tree.get? q ∧ w'.tree.get? q = w.tree.get? q ∨
      u'.tree.get? q = w'.tree.get? q ∧ Reached s planOnly v job u' q := by
  rcases h q with hsame | ⟨heq, hplace | ⟨hway, hnone, hfolder⟩⟩
  · exact Or.inl hsame
  · exact Or.inr ⟨heq, Or.inl ⟨p, hp, hplace⟩⟩
  · exact Or.inr ⟨heq, Or.inr ⟨hnone, hfolder, p, hp, hway⟩⟩

theorem exists_writes_writeText {text : String} {r : Except Failure Unit} (hproper : w.tree.Proper)
    (hparts : p.parts ≠ []) (h : (writeText p text).outcome w = (r, w')) :
    ∃ es, Files.Writes w es w' := by
  rcases outcome_writeText hproper hparts h with ⟨-, -, rfl⟩ | ⟨-, ⟨-, hwrites⟩ | ⟨-, hwrites⟩⟩
  · exact ⟨_, .refl hproper⟩
  · exact ⟨_, hwrites⟩
  · exact ⟨_, hwrites⟩

/-- A step that a task takes alone and beside others, which leads to the same stage and
changes the same. -/
def StepsAlike (s : Settings) (planOnly : Bool) (v : Workspace) (task : Task)
    (u w : Workspace) : Prop :=
  ∃ stage u' w', task.stage.step s planOnly task.job u = (stage, u') ∧
    task.stage.step s planOnly task.job w = (stage, w') ∧ Grown v w' ∧
    Alone s planOnly v ⟨task.job, stage⟩ u' ∧
    (∀ q, u'.tree.get? q = u.tree.get? q ∧ w'.tree.get? q = w.tree.get? q ∨
      u'.tree.get? q = w'.tree.get? q ∧ Reached s planOnly v task.job u' q) ∧
    (u'.input = u.input ∧ w'.input = w.input ∨ u'.input = "" ∧ w'.input = "")

theorem Alone.stepsAlike (h : Alone s planOnly v task u) {r : Except Failure Stage}
    (hnext : (task.stage.next s planOnly task.job).outcome u = (r, u'))
    (hnext' : (task.stage.next s planOnly task.job).outcome w = (r, w'))
    (hu' : Grown v u') (hw' : Grown v w')
    (hchange : ∀ q, u'.tree.get? q = u.tree.get? q ∧ w'.tree.get? q = w.tree.get? q ∨
      u'.tree.get? q = w'.tree.get? q ∧ Reached s planOnly v task.job u' q)
    (hinput : u'.input = u.input ∧ w'.input = w.input ∨
      (u'.input = "" ∧ w'.input = "") ∧ task.job.location = Document.standardInput)
    (hfits : ∀ stage, r = .ok stage → Fits s planOnly v task.job u' stage) :
    StepsAlike s planOnly v task u w := by
  have hstep : task.stage.step s planOnly task.job u = (.reached r, u') := by rw [Stage.step, hnext]
  have hstep' : task.stage.step s planOnly task.job w =
    (.reached r, w') := by rw [Stage.step, hnext']
  refine ⟨_, u', w', hstep, hstep', hw', h.moved hstep hu' (fun q => ?_) ?_ ?_, hchange, ?_⟩
  · exact (hchange q).imp And.left And.right
  · exact hinput.imp And.left fun hread => ⟨hread.1.1, hread.2⟩
  · cases r with
    | ok stage => exact hfits stage rfl
    | error f => trivial
  · exact hinput.imp_right And.left

theorem outcome_bind_pure {α β : Type} {x : Session α} {r : Except Failure α}
    (h : x.outcome w = (r, w')) (f : α → β) :
    (x >>= fun a => pure (f a)).outcome w = (r.map f, w') := by
  rw [outcome_bind, h]
  cases r with
  | ok a => rfl
  | error e => rfl

/-- A document is read beside the others as alone. -/
theorem Alone.step_waiting (h : Alone s planOnly v ⟨job, .waiting⟩ u) (hv : v.tree.Proper)
    (hw : Grown v w) (hinput : job.location = Document.standardInput → w.input = v.input)
    (hsource : job.ReadsFile →
      (Straight v job.source ∨ w.tree.Grows v.tree) ∧ Unwritten v w job.source) :
    StepsAlike s planOnly v ⟨job, .waiting⟩ u w := by
  obtain rfl : u = v := h.fits
  have hplan : ((plan s planOnly job).outcome w).1 = ((plan s planOnly job).outcome u).1 :=
    outcome_plan_fst hv hw hinput hsource
  have hrun := outcome_plan s planOnly job u
  have hrun' := outcome_plan s planOnly job w
  rw [hplan] at hrun'
  refine h.stepsAlike (outcome_bind_pure hrun _) (outcome_bind_pure hrun' _)
    (Document.grown_afterFetch h.grown job.location) (Document.grown_afterFetch hw job.location)
    (fun q => Or.inl ⟨by rw [Document.afterFetch_tree], by rw [Document.afterFetch_tree]⟩) ?_
    fun stage hstage => ?_
  · unfold Document.afterFetch
    split
    next hlocation => exact Or.inr ⟨⟨rfl, rfl⟩, hlocation⟩
    next => exact Or.inl ⟨rfl, rfl⟩
  · cases hr : ((plan s planOnly job).outcome u).1 with
    | error f =>
      rw [hr] at hstage
      cases hstage
    | ok planned =>
      rw [hr] at hstage
      cases hstage
      exact fun e he => mem_paths.2 ⟨planned, hr, e, he, rfl⟩

/-- The folders for a file are made beside the others as alone. -/
theorem Alone.step_making {made : Made} {path text : String} {files : Ordered String}
    (h : Alone s planOnly v ⟨job, .making made ((path, text) :: files)⟩ u) (hv : v.tree.Proper)
    (hw : Grown v w) (hstraight : Straight v (job.folder.below path))
    (hbeside : Beside v u w (job.folder.below path)) :
    StepsAlike s planOnly v ⟨job, .making made ((path, text) :: files)⟩ u w := by
  have hfits : ∀ e, e ∈ (path, text) :: files → job.folder.below e.1 ∈ job.paths s planOnly v :=
    h.fits
  have hpath := hfits _ List.mem_cons_self
  obtain ⟨r, u', w', hrun, hrun', halike, hready⟩ := Files.alike_makeFolders hv h.grown hw
    (of_mem_paths hpath).2 hstraight hbeside
  have hu' := makesFolders_makeFolders (job.folder.below path).parent u h.grown.proper
  have hw' := makesFolders_makeFolders (job.folder.below path).parent w hw.proper
  rw [hrun] at hu'
  rw [hrun'] at hw'
  refine h.stepsAlike (outcome_bind_pure hrun _) (outcome_bind_pure hrun' _)
    (h.grown.trans hu'.grown) (hw.trans hw'.grown) (reached_of_alike halike hpath)
    (Or.inl ⟨hu'.input, hw'.input⟩)
    fun stage hstage => ?_
  cases r with
  | error f => cases hstage
  | ok _ =>
    cases hstage
    exact ⟨hpath, hready rfl, fun e he => hfits e (List.mem_cons_of_mem _ he)⟩

/-- A file is written beside the others as alone. -/
theorem Alone.step_writing {made : Made} {path text : String} {files : Ordered String}
    (h : Alone s planOnly v ⟨job, .writing made path text files⟩ u) (hv : v.tree.Proper)
    (hw : Grown v w) (hstraight : Straight v (job.folder.below path))
    (hbeside : Beside v u w (job.folder.below path)) :
    StepsAlike s planOnly v ⟨job, .writing made path text files⟩ u w := by
  obtain ⟨hpath, hready, hfiles⟩ := h.fits
  obtain ⟨r, u', w', hrun, hrun', halike⟩ :=
    Files.alike_writeText hv h.grown hw hstraight hbeside hready text
  obtain ⟨es, hu'⟩ := exists_writes_writeText h.grown.proper (of_mem_paths hpath).2 hrun
  obtain ⟨fs, hw'⟩ := exists_writes_writeText hw.proper (of_mem_paths hpath).2 hrun'
  refine h.stepsAlike (outcome_bind_pure hrun _) (outcome_bind_pure hrun' _)
    (h.grown.trans hu'.grown) (hw.trans hw'.grown) (reached_of_alike halike hpath)
    (Or.inl ⟨hu'.input, hw'.input⟩)
    fun stage hstage => ?_
  cases r with
  | error f => cases hstage
  | ok _ =>
    cases hstage
    exact hfiles

/-- What a task does beside the others, it does alone, and it changes the same. -/
theorem Alone.step (h : Alone s planOnly v task u) (hv : v.tree.Proper) (hw : Grown v w)
    (hstraight : ∀ p, p ∈ task.job.paths s planOnly v → Straight v p)
    (hbeside : ∀ p, p ∈ task.job.paths s planOnly v → Beside v u w p)
    (hinput : task.job.location = Document.standardInput → u = v → w.input = v.input)
    (hsource : task.job.ReadsFile → (Straight v task.job.source ∨ w.tree.Grows v.tree) ∧
      (u = v → Unwritten v w task.job.source)) :
    StepsAlike s planOnly v task u w := by
  obtain ⟨job, stage⟩ := task
  have hfits := h.fits
  have hsame : ∀ q, u.tree.get? q = u.tree.get? q ∧ w.tree.get? q = w.tree.get? q ∨
      u.tree.get? q = w.tree.get? q ∧ Reached s planOnly v job u q := fun q => Or.inl ⟨rfl, rfl⟩
  cases stage with
  | waiting =>
    have hstart : u = v := hfits
    exact h.step_waiting hv hw (fun hlocation => hinput hlocation hstart) fun hfile =>
      ⟨(hsource hfile).1, (hsource hfile).2 hstart⟩
  | making made files =>
    cases files with
    | nil =>
      refine h.stepsAlike rfl rfl h.grown hw hsame (Or.inl ⟨rfl, rfl⟩) fun stage hstage => ?_
      cases hstage
      trivial
    | cons e files =>
      obtain ⟨path, text⟩ := e
      have hpath := hfits _ List.mem_cons_self
      exact h.step_making hv hw (hstraight _ hpath) (hbeside _ hpath)
  | writing made path text files =>
    exact h.step_writing hv hw (hstraight _ hfits.1) (hbeside _ hfits.1)
  | done outcome =>
    refine h.stepsAlike rfl rfl h.grown hw hsame (Or.inl ⟨rfl, rfl⟩) fun stage hstage => ?_
    cases hstage
    trivial

end TypedClients.Run
