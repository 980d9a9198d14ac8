import Mathlib.Logic.Relation
import TypedClients.Proofs.Files.Reading
import TypedClients.Proofs.Writing.Queue
import TypedClients.Run.Sources

/-!
# Documents that are made at the same time

A parallel run has a task for each of its documents. A task reads its document, and then, for
one file after the other, makes the folders that the file needs and writes it. The tasks take
turns in any order, a step at a time, all in the same tree; a task that fails stops, and the
others go on. When all are done, their results are put together in the order of the documents.

* `outcome_rest_step`: a step of a task leaves to be done what was to be done before it, less
  this step.
* `exists_finishAll`: tasks that come to their ends one after another have taken turns.
* `exists_processTogether`, `exists_turns_processTogether`: the turns that the program takes
  as it is told are those that tasks can take.
-/

namespace TypedClients.Run

open Files (Path Workspace Session)
open Files.Session
open Writing (Queue)

variable {s : Settings} {planOnly : Bool} {job : Job} {w w' : Workspace} {stage : Stage}

/-! ## One task -/

/-- The stage that a step leads to. A failure is the end of a task. -/
def Stage.reached : Except Failure Stage → Stage
  | .ok stage => stage
  | .error f => done (.error f)

/-- A step of a task: how far it has come then, and the surroundings. -/
def Stage.step (s : Settings) (planOnly : Bool) (job : Job) (stage : Stage) (w : Workspace) :
    Stage × Workspace :=
  let after := (stage.next s planOnly job).outcome w
  (reached after.1, after.2)

/-! ## All tasks -/

/-- One of some tasks takes a step. -/
inductive Turn (s : Settings) (planOnly : Bool) :
    List Task × Workspace → List Task × Workspace → Prop
  | step (before after : List Task) (task : Task) (w : Workspace) :
    Turn s planOnly (before ++ task :: after, w)
      (before ++ ⟨task.job, (task.stage.step s planOnly task.job w).1⟩ :: after,
        (task.stage.step s planOnly task.job w).2)

/-- Some tasks take turns. -/
def Interleaved (s : Settings) (planOnly : Bool) :
    List Task × Workspace → List Task × Workspace → Prop :=
  Relation.ReflTransGen (Turn s planOnly)

/-- The results of tasks that are all done. -/
def gather : List Task → Option (List SourceResult)
  | [] => some []
  | task :: tasks =>
    match task.stage with
    | .done outcome => (gather tasks).map (⟨task.job.location, outcome⟩ :: ·)
    | _ => none

/-! ## What is left of a task -/

/-- Files that are all written are reported under their paths. -/
theorem eq_of_writeFiles {folder : Path} {files : Ordered String} {ps : List Path}
    (h : (Queue.writeFiles folder files).outcome w = (.ok ps, w')) :
    ps = files.map fun e => folder.below e.1 := by
  induction files generalizing w ps with
  | nil =>
    cases h
    rfl
  | cons e files ih =>
    obtain ⟨path, text⟩ := e
    rcases outcome_bind_cases h with ⟨_, -, he⟩ | ⟨_, v, -, h⟩
    · cases he
    rcases outcome_bind_cases h with ⟨_, -, he⟩ | ⟨_, u, -, h⟩
    · cases he
    rcases outcome_bind_cases h with ⟨_, -, he⟩ | ⟨ps, v', hfiles, h⟩
    · cases he
    cases h
    rw [ih hfiles]
    rfl

theorem outcome_write_eq (q : Queue) (w : Workspace) :
    q.write.outcome w = (Queue.writeFiles q.folder q.files).outcome w := by
  rw [Queue.write, outcome_bind]
  generalize (Queue.writeFiles q.folder q.files).outcome w = written
  obtain ⟨f | ps, v⟩ := written
  · rfl
  · rfl

/-- To make the clients of a document is to plan the files for it and to write them. -/
theorem outcome_make_eq (s : Settings) (planOnly : Bool) (job : Job) (w : Workspace) :
    (make job.location job.folder (s.options job.serviceName) planOnly).outcome w =
      (plan s planOnly job >>= fun planned => do
        let _ ← Queue.writeFiles job.folder planned.2
        return planned.1).outcome w := by
  simp only [make, plan, outcome_bind]
  generalize (Document.fetch job.location).outcome w = fetched
  obtain ⟨f | root, v⟩ := fetched
  · rfl
  simp only
  rw [outcome_checked]
  cases (Document.load root).outcome with
  | error f => rfl
  | ok document =>
    simp only
    rw [outcome_generate]
    cases hgenerate : (document.generate v.nestingLimit (s.options job.serviceName)).outcome with
    | error f => rfl
    | ok out =>
      simp only [outcome_pure]
      cases planOnly with
      | true => rfl
      | false =>
        have hqueue := Writing.files_addFolders_of_generate hgenerate job.folder
        simp only [hqueue, if_neg Bool.false_ne_true]
        rw [outcome_bind, outcome_write_eq]
        generalize hrun : (Queue.writeFiles job.folder (Writing.filesOf out)).outcome v = written
        obtain ⟨f | ps, v'⟩ := written
        · rfl
        · rw [eq_of_writeFiles hrun]
          refine congrArg (fun texts => (Except.ok (Made.mk _ texts _), v')) ?_
          rw [List.map_map]
          rfl

/-- A step of a task leaves to be done what was to be done before it, less this step. -/
theorem outcome_rest_step (s : Settings) (planOnly : Bool) (job : Job) (stage : Stage)
    (w : Workspace) :
    ((stage.step s planOnly job w).1.rest s planOnly job).outcome (stage.step s planOnly job w).2 =
      (stage.rest s planOnly job).outcome w := by
  have hnext : ((stage.step s planOnly job w).1.rest s planOnly job).outcome
      (stage.step s planOnly job w).2 =
      (stage.next s planOnly job >>= Stage.rest s planOnly job).outcome w := by
    rw [outcome_bind, Stage.step]
    generalize (stage.next s planOnly job).outcome w = q
    obtain ⟨f | stage, v⟩ := q
    · rfl
    · rfl
  rw [hnext]
  cases stage with
  | waiting =>
    refine Eq.trans ?_ (outcome_make_eq s planOnly job w).symm
    rw [Stage.next, outcome_bind, outcome_bind, outcome_bind]
    generalize (plan s planOnly job).outcome w = q
    obtain ⟨f | planned, v⟩ := q
    · rfl
    · rfl
  | making made files =>
    cases files with
    | nil => rfl
    | cons e files =>
      obtain ⟨path, text⟩ := e
      simp only [Stage.next, Stage.rest, Queue.writeFiles, outcome_bind]
      generalize (makeFolders (job.folder.below path).parent).outcome w = q
      obtain ⟨f | _, v⟩ := q
      · rfl
      simp only [outcome_pure, outcome_bind]
      generalize (writeText (job.folder.below path) text).outcome v = q
      obtain ⟨f | _, v⟩ := q
      · rfl
      simp only
      generalize (Queue.writeFiles job.folder files).outcome v = q
      obtain ⟨f | _, v⟩ := q
      · rfl
      · rfl
  | writing made path text files =>
    simp only [Stage.next, Stage.rest, outcome_bind]
    generalize (writeText (job.folder.below path) text).outcome w = q
    obtain ⟨f | _, v⟩ := q
    · rfl
    · simp only [outcome_pure, outcome_bind]
  | done outcome => rfl

/-! ## One document after the other -/

theorem outcome_rest_done (s : Settings) (planOnly : Bool) (job : Job)
    (outcome : Except Failure Made) (w : Workspace) :
    ((Stage.done outcome).rest s planOnly job).outcome w = (outcome, w) := by
  cases outcome with
  | ok made => rfl
  | error f => rfl

/-- A task that is not disturbed comes to its end. -/
def Finishes (s : Settings) (planOnly : Bool) (job : Job) (stage : Stage) (w : Workspace) : Prop :=
  ∃ outcome w', (stage.rest s planOnly job).outcome w = (outcome, w') ∧
    ∀ before after, Interleaved s planOnly (before ++ ⟨job, stage⟩ :: after, w)
      (before ++ ⟨job, .done outcome⟩ :: after, w')

theorem finishes_done (outcome : Except Failure Made) (w : Workspace) :
    Finishes s planOnly job (.done outcome) w :=
  ⟨outcome, w, outcome_rest_done s planOnly job outcome w, fun _ _ => .refl⟩

theorem finishes_of_step (h : Finishes s planOnly job (stage.step s planOnly job w).1
    (stage.step s planOnly job w).2) : Finishes s planOnly job stage w := by
  obtain ⟨outcome, w', hrest, hturns⟩ := h
  rw [outcome_rest_step] at hrest
  exact ⟨outcome, w', hrest, fun before after =>
    .head (.step before after ⟨job, stage⟩ w) (hturns before after)⟩

theorem finishes_of_next
    (h : ∀ stage' w', (stage.next s planOnly job).outcome w = (.ok stage', w') →
    Finishes s planOnly job stage' w') : Finishes s planOnly job stage w := by
  refine finishes_of_step ?_
  rw [Stage.step]
  generalize (stage.next s planOnly job).outcome w = q at h
  obtain ⟨f | stage', v⟩ := q
  · exact finishes_done _ _
  · exact h stage' v rfl

theorem finishes_writing {made : Made} {files : Ordered String}
    (h : ∀ v, Finishes s planOnly job (.making made files) v) (path text : String) (w : Workspace) :
    Finishes s planOnly job (.writing made path text files) w := by
  refine finishes_of_next fun stage v hnext => ?_
  rcases outcome_bind_cases hnext with ⟨_, -, he⟩ | ⟨_, _, -, hpure⟩
  · cases he
  cases hpure
  exact h v

theorem finishes_making (made : Made) (files : Ordered String) (w : Workspace) :
    Finishes s planOnly job (.making made files) w := by
  induction files generalizing w with
  | nil => exact finishes_of_step (finishes_done _ _)
  | cons e files ih =>
    obtain ⟨path, text⟩ := e
    refine finishes_of_next fun stage v hnext => ?_
    rcases outcome_bind_cases hnext with ⟨_, -, he⟩ | ⟨_, _, -, hpure⟩
    · cases he
    cases hpure
    exact finishes_writing ih path text v

/-- At whatever stage a task is, it comes to its end. -/
theorem finishes (s : Settings) (planOnly : Bool) (job : Job) (stage : Stage) (w : Workspace) :
    Finishes s planOnly job stage w := by
  cases stage with
  | waiting =>
    refine finishes_of_next fun stage v hnext => ?_
    rcases outcome_bind_cases hnext with ⟨_, -, he⟩ | ⟨_, _, -, hpure⟩
    · cases he
    cases hpure
    exact finishes_making _ _ _
  | making made files => exact finishes_making made files w
  | writing made path text files => exact finishes_writing (finishes_making made files) path text w
  | done outcome => exact finishes_done outcome w

/-! ## All that is left of some tasks -/

/-- To bring a task to its end is to do what is left of it. -/
theorem outcome_finish (s : Settings) (planOnly : Bool) (task : Task) (w : Workspace) :
    (task.finish s planOnly).outcome w =
      (.ok ⟨task.job.location, ((task.stage.rest s planOnly task.job).outcome w).1⟩,
        ((task.stage.rest s planOnly task.job).outcome w).2) := by
  obtain ⟨job, stage⟩ := task
  cases stage with
  | done outcome =>
    rw [outcome_rest_done]
    rfl
  | waiting =>
    rw [Task.finish, outcome_bind, outcome_attempt]
    exact outcome_conclude _ _ _
  | making made files =>
    rw [Task.finish, outcome_bind, outcome_attempt]
    exact outcome_conclude _ _ _
  | writing made path text files =>
    rw [Task.finish, outcome_bind, outcome_attempt]
    exact outcome_conclude _ _ _

/-- Tasks that are brought to their ends one after another have taken turns, and their results
are gathered. -/
theorem exists_finishAll (s : Settings) (planOnly : Bool) (tasks : List Task) (w : Workspace) :
    ∃ results tasks' w', (finishAll s planOnly tasks).outcome w = (.ok results, w') ∧
      gather tasks' = some results ∧
      ∀ before, Interleaved s planOnly (before ++ tasks, w) (before ++ tasks', w') := by
  induction tasks generalizing w with
  | nil => exact ⟨[], [], w, rfl, rfl, fun _ => .refl⟩
  | cons task tasks ih =>
    obtain ⟨outcome, v, hrest, hturns⟩ := finishes s planOnly task.job task.stage w
    obtain ⟨results, tasks', w', hothers, hgather, hlater⟩ := ih v
    refine ⟨⟨task.job.location, outcome⟩ :: results, ⟨task.job, .done outcome⟩ :: tasks',
      w', ?_, ?_,
      fun before => (hturns before tasks).trans ?_⟩
    · rw [finishAll, outcome_bind, outcome_finish, hrest]
      simp only
      rw [outcome_bind, hothers]
      rfl
    · rw [gather, hgather]
      rfl
    · have hbehind := hlater (before ++ [⟨task.job, .done outcome⟩])
      rw [List.append_assoc, List.append_assoc] at hbehind
      exact hbehind

/-- Nothing is left of tasks that are all done. -/
theorem outcome_finishAll_of_gather {tasks : List Task} {results : List SourceResult}
    (h : gather tasks = some results) :
    (finishAll s planOnly tasks).outcome w = (.ok results, w) := by
  induction tasks generalizing results with
  | nil =>
    cases h
    rfl
  | cons task tasks ih =>
    obtain ⟨job, stage⟩ := task
    rw [gather] at h
    split at h
    next outcome hstage =>
      obtain ⟨others, hothers, rfl⟩ := Option.map_eq_some_iff.1 h
      obtain rfl : stage = .done outcome := hstage
      rw [finishAll, outcome_bind, outcome_finish, outcome_rest_done]
      simp only
      rw [outcome_bind, ih hothers]
      rfl
    next => cases h

/-- To take one document after the other is to bring one task after the other to its end. -/
theorem processAll_eq (s : Settings) (planOnly : Bool) (jobs : List Job) :
    processAll s planOnly jobs = finishAll s planOnly (jobs.map fun job => ⟨job, .waiting⟩) := by
  induction jobs with
  | nil => rfl
  | cons job jobs ih =>
    rw [processAll, ih]
    rfl

/-! ## The turns that are given -/

/-- A task takes a step as it would on its own. -/
theorem outcome_advance (s : Settings) (planOnly : Bool) (job : Job) (stage : Stage)
    (w : Workspace) :
    (stage.advance s planOnly job).outcome w =
      (.ok (stage.step s planOnly job w).1, (stage.step s planOnly job w).2) := by
  rw [Stage.advance, outcome_bind, outcome_attempt, Stage.step]
  generalize (stage.next s planOnly job).outcome w = q
  obtain ⟨f | stage, v⟩ := q
  · rfl
  · rfl

/-- The number of a task tells which one takes a step. -/
theorem outcome_takeTurn (s : Settings) (planOnly : Bool) (before after : List Task) (task : Task)
    (w : Workspace) : (takeTurn s planOnly before.length (before ++ task :: after)).outcome w =
      (.ok (before ++ ⟨task.job, (task.stage.step s planOnly task.job w).1⟩ :: after),
        (task.stage.step s planOnly task.job w).2) := by
  induction before with
  | nil =>
    change (takeTurn s planOnly 0 (task :: after)).outcome w = _
    rw [takeTurn, outcome_bind, outcome_advance]
    rfl
  | cons other before ih =>
    change (takeTurn s planOnly (before.length + 1) (other :: (before ++ task :: after))).outcome
      w = _
    rw [takeTurn, outcome_bind, ih]
    rfl

/-- Without a task that has the number nothing happens. -/
theorem outcome_takeTurn_of_le {n : Nat} {tasks : List Task} (h : tasks.length ≤ n) :
    (takeTurn s planOnly n tasks).outcome w = (.ok tasks, w) := by
  induction tasks generalizing n with
  | nil => rw [takeTurn, outcome_pure]
  | cons task tasks ih =>
    cases n with
    | zero => exact absurd h (Nat.not_succ_le_zero _)
    | succ n =>
      rw [takeTurn, outcome_bind, ih (Nat.le_of_succ_le_succ h)]
      rfl

/-- The turns that are given are turns that the tasks can take. -/
theorem exists_takeTurns (s : Settings) (planOnly : Bool) (turns : List Nat) (tasks : List Task)
    (w : Workspace) : ∃ tasks' w', (takeTurns s planOnly turns tasks).outcome w = (.ok tasks', w') ∧
      Interleaved s planOnly (tasks, w) (tasks', w') := by
  induction turns generalizing tasks w with
  | nil => exact ⟨tasks, w, rfl, .refl⟩
  | cons n turns ih =>
    by_cases hn : n < tasks.length
    · obtain ⟨before, task, after, rfl, rfl⟩ : ∃ before task after,
          tasks = before ++ task :: after ∧ before.length = n :=
        ⟨tasks.take n, tasks[n], tasks.drop (n + 1), by simp,
          List.length_take_of_le (Nat.le_of_lt hn)⟩
      obtain ⟨tasks', w', hrun, hturns⟩ := ih _ _
      refine ⟨tasks', w', ?_, .head (.step before after task w) hturns⟩
      rw [takeTurns, outcome_bind, outcome_takeTurn]
      exact hrun
    · obtain ⟨tasks', w', hrun, hturns⟩ := ih tasks w
      refine ⟨tasks', w', ?_, hturns⟩
      rw [takeTurns, outcome_bind, outcome_takeTurn_of_le (Nat.le_of_not_lt hn)]
      exact hrun

/-- All turns that tasks can take can be given. -/
theorem exists_turns_of_interleaved {before after : List Task × Workspace}
    (h : Interleaved s planOnly before after) :
    ∃ turns, (takeTurns s planOnly turns before.1).outcome before.2 = (.ok after.1, after.2) := by
  induction h using Relation.ReflTransGen.head_induction_on with
  | refl => exact ⟨[], rfl⟩
  | head hturn _ ih =>
    obtain ⟨turns, hrun⟩ := ih
    cases hturn with
    | step front back task w =>
      refine ⟨front.length :: turns, ?_⟩
      rw [takeTurns, outcome_bind, outcome_takeTurn]
      exact hrun

/-- Documents are processed at the same time by tasks that take turns until all are done. -/
theorem exists_processTogether (s : Settings) (planOnly : Bool) (turns : List Nat) (jobs : List Job)
    (w : Workspace) : ∃ results tasks w',
      (processTogether s planOnly turns jobs).outcome w = (.ok results, w') ∧
        Interleaved s planOnly (jobs.map fun job => ⟨job, .waiting⟩, w) (tasks, w') ∧
        gather tasks = some results := by
  obtain ⟨tasks, v, hrun, hturns⟩ :=
    exists_takeTurns s planOnly turns (jobs.map fun job => ⟨job, .waiting⟩) w
  obtain ⟨results, tasks', w', hfinish, hgather, hrest⟩ := exists_finishAll s planOnly tasks v
  refine ⟨results, tasks', w', ?_, hturns.trans (hrest []), hgather⟩
  rw [processTogether, outcome_bind, hrun]
  exact hfinish

/-- However tasks take turns until all are done, documents can be processed so. -/
theorem exists_turns_processTogether {jobs : List Job} {tasks : List Task}
    {results : List SourceResult}
    (h : Interleaved s planOnly (jobs.map fun job => ⟨job, .waiting⟩, w) (tasks, w'))
    (hgather : gather tasks = some results) :
    ∃ turns, (processTogether s planOnly turns jobs).outcome w = (.ok results, w') := by
  obtain ⟨turns, hrun⟩ := exists_turns_of_interleaved h
  refine ⟨turns, ?_⟩
  rw [processTogether, outcome_bind, hrun]
  exact outcome_finishAll_of_gather hgather

end TypedClients.Run
