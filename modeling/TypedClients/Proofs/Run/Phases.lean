import TypedClients.Proofs.Run.Tasks

/-!
# The phases of a run

A run clears away earlier output, lists the documents of its sources, and processes these.
Only the first two phases can fail, and then nothing is made. In the third one the documents
are tasks that take turns: one after another, or in whichever order they are told to.

* `phases_of_all`: how far a run comes, and what comes of it.
* `together_of_all`, `together_of_inTurn`: a run is one whose documents are made at the same time.
* `exists_turns`: with several documents, all that can come of these is what comes of a
  parallel run.
-/

namespace TypedClients.Run

open Files (Path Workspace Session)
open Files.Session

variable {s : Settings} {planOnly : Bool} {w w' : Workspace} {r : Except Failure Results}
  {processing : List Job → Session (List SourceResult)}

/-- The sources that a run takes. -/
def active (s : Settings) : List Source := s.sources.filter (!·.skip)

/-- The folders that a run clears away first. -/
def toClear (s : Settings) (planOnly : Bool) : List Path :=
  if s.cleanOutput && !planOnly then inOrder ((active s).map (clientsFolder s)) else []

theorem eq_of_collect {sources : List Source} {r : Except Failure (List Job × List SourceResult)}
    (h : (collect s sources).outcome w = (r, w')) : w' = w := by
  have hreads := reads_collect s sources w
  rw [h] at hreads
  exact hreads

/-! ## Documents as tasks -/

/-- A way of processing documents in which a task for each of them takes turns with the others
until all are done. -/
def TakesTurns (s : Settings) (planOnly : Bool)
    (processing : List Job → Session (List SourceResult)) :
    Prop :=
  ∀ jobs w, ∃ results tasks w', (processing jobs).outcome w = (.ok results, w') ∧
    Interleaved s planOnly (jobs.map fun job => ⟨job, .waiting⟩, w) (tasks, w') ∧
    gather tasks = some results

theorem takesTurns_processAll (s : Settings) (planOnly : Bool) :
    TakesTurns s planOnly (processAll s planOnly) := by
  intro jobs w
  rw [processAll_eq]
  obtain ⟨results, tasks, w', hrun, hgather, hturns⟩ :=
    exists_finishAll s planOnly (jobs.map fun job => ⟨job, .waiting⟩) w
  exact ⟨results, tasks, w', hrun, hturns [], hgather⟩

theorem takesTurns_processJobs (s : Settings) (planOnly : Bool) (turns : List Nat) :
    TakesTurns s planOnly (processJobs s planOnly turns) := by
  intro jobs w
  unfold processJobs
  split
  · exact exists_processTogether s planOnly turns jobs w
  · exact takesTurns_processAll s planOnly jobs w

/-! ## Whole runs -/

/-- How far a run comes that processes its documents in a way that does not fail. -/
inductive Phases (s : Settings) (planOnly : Bool)
    (processing : List Job → Session (List SourceResult)) (w : Workspace) : Except Failure Results →
    Workspace → Prop
  | notCleared {f : Failure} {w' : Workspace} :
    (cleanAll (toClear s planOnly)).outcome w = (.error f, w') →
    Phases s planOnly processing w (.error f) w'
  | notListed {f : Failure} {v : Workspace} :
    (cleanAll (toClear s planOnly)).outcome w = (.ok (), v) →
    (collect s (active s)).outcome v = (.error f, v) → Phases s planOnly processing w (.error f) v
  | processed {v w' : Workspace} {jobs : List Job} {unlisted results : List SourceResult} :
    (cleanAll (toClear s planOnly)).outcome w = (.ok (), v) →
    (collect s (active s)).outcome v = (.ok (jobs, unlisted), v) →
    (processing jobs).outcome v = (.ok results, w') →
    Phases s planOnly processing w
      (.ok ⟨s.sources.length, s.sources.length - (active s).length, unlisted ++ results⟩) w'

theorem phases_of_runWith (hprocessing : TakesTurns s planOnly processing)
    (h : (runWith processing s planOnly).outcome w = (r, w')) :
    Phases s planOnly processing w r w' := by
  have hphases : (runWith processing s planOnly).outcome w =
      (cleanAll (toClear s planOnly) >>= fun _ => collect s (active s) >>= fun listed =>
        processing listed.1 >>= fun results =>
          pure ⟨s.sources.length, s.sources.length - (active s).length,
            listed.2 ++ results⟩).outcome w := by
    unfold runWith toClear
    simp only
    split
    · rfl
    · refine Eq.trans ?_ (outcome_bind (cleanAll []) _ w).symm
      rfl
  rw [hphases] at h
  rcases outcome_bind_cases h with ⟨f, hclean, rfl⟩ | ⟨_, v, hclean, h⟩
  · exact .notCleared hclean
  rcases (reads_collect s (active s)).bind_cases h with ⟨f, hlist, rfl, rfl⟩ | ⟨listed, hlist, h⟩
  · exact .notListed hclean hlist
  obtain ⟨jobs, unlisted⟩ := listed
  obtain ⟨results, _, v', hresults, -⟩ := hprocessing jobs v
  rw [outcome_bind, hresults] at h
  cases h
  exact .processed hclean hlist hresults

theorem phases_of_all {turns : List Nat} (h : (all s planOnly turns).outcome w = (r, w')) :
    Phases s planOnly (processJobs s planOnly turns) w r w' :=
  phases_of_runWith (takesTurns_processJobs s planOnly turns) h

theorem phases_of_inTurn (h : (inTurn s planOnly).outcome w = (r, w')) :
    Phases s planOnly (processAll s planOnly) w r w' :=
  phases_of_runWith (takesTurns_processAll s planOnly) h

/-- A run whose documents are made at the same time. -/
inductive Together (s : Settings) (planOnly : Bool) (w : Workspace) :
    Except Failure Results → Workspace → Prop
  | notCleared {f : Failure} {w' : Workspace} :
    (cleanAll (toClear s planOnly)).outcome w = (.error f, w') → Together s planOnly w (.error f) w'
  | notListed {f : Failure} {v w' : Workspace} :
    (cleanAll (toClear s planOnly)).outcome w = (.ok (), v) →
    (collect s (active s)).outcome v = (.error f, w') → Together s planOnly w (.error f) w'
  | done {v v' w' : Workspace} {jobs : List Job} {unlisted results : List SourceResult}
      {tasks : List Task} :
    (cleanAll (toClear s planOnly)).outcome w = (.ok (), v) →
    (collect s (active s)).outcome v = (.ok (jobs, unlisted), v') →
    Interleaved s planOnly (jobs.map fun job => ⟨job, .waiting⟩, v') (tasks, w') →
    gather tasks = some results →
    Together s planOnly w
      (.ok ⟨s.sources.length, s.sources.length - (active s).length, unlisted ++ results⟩) w'

theorem together_of_phases (hprocessing : TakesTurns s planOnly processing)
    (h : Phases s planOnly processing w r w') : Together s planOnly w r w' := by
  cases h with
  | notCleared hclean => exact .notCleared hclean
  | notListed hclean hlist => exact .notListed hclean hlist
  | @processed v _ jobs _ _ hclean hlist hrun =>
    obtain ⟨_, tasks, _, hrun', hturns, hgather⟩ := hprocessing jobs v
    cases hrun.symm.trans hrun'
    exact .done hclean hlist hturns hgather

/-- Whatever turns the tasks of a run take, it is one whose documents are made at the same
time. -/
theorem together_of_all {turns : List Nat} (h : (all s planOnly turns).outcome w = (r, w')) :
    Together s planOnly w r w' :=
  together_of_phases (takesTurns_processJobs s planOnly turns) (phases_of_all h)

/-- A run that takes one document after the other is one in which the tasks do not disturb
each other. -/
theorem together_of_inTurn (h : (inTurn s planOnly).outcome w = (r, w')) :
    Together s planOnly w r w' :=
  together_of_phases (takesTurns_processAll s planOnly) (phases_of_inTurn h)

/-- All that can come of several documents that are made at the same time comes of a parallel
run, with the right turns. -/
theorem exists_turns (hparallel : s.parallel = true)
    (hmany : ∀ v jobs unlisted, (cleanAll (toClear s planOnly)).outcome w = (.ok (), v) →
      (collect s (active s)).outcome v = (.ok (jobs, unlisted), v) → 1 < jobs.length)
    (h : Together s planOnly w r w') : ∃ turns, (all s planOnly turns).outcome w = (r, w') := by
  cases h with
  | notCleared hclean =>
    generalize hrun : (all s planOnly []).outcome w = ended
    obtain ⟨r, u⟩ := ended
    cases phases_of_all hrun with
    | notCleared hclean' =>
      cases hclean.symm.trans hclean'
      exact ⟨[], hrun⟩
    | notListed hclean' => cases hclean.symm.trans hclean'
    | processed hclean' => cases hclean.symm.trans hclean'
  | notListed hclean hlist =>
    generalize hrun : (all s planOnly []).outcome w = ended
    obtain ⟨r, u⟩ := ended
    cases phases_of_all hrun with
    | notCleared hclean' => cases hclean.symm.trans hclean'
    | notListed hclean' hlist' =>
      cases hclean.symm.trans hclean'
      cases hlist.symm.trans hlist'
      exact ⟨[], hrun⟩
    | processed hclean' hlist' =>
      cases hclean.symm.trans hclean'
      cases hlist.symm.trans hlist'
  | @done v v' _ jobs _ _ _ hclean hlist hturns hgather =>
    obtain rfl : v' = v := eq_of_collect hlist
    obtain ⟨turns, hresults⟩ := exists_turns_processTogether hturns hgather
    have hmore : (s.parallel && decide (1 < jobs.length)) = true := by
      rw [hparallel, decide_eq_true (hmany _ _ _ hclean hlist)]
      rfl
    generalize hrun : (all s planOnly turns).outcome w = ended
    obtain ⟨r, u⟩ := ended
    cases phases_of_all hrun with
    | notCleared hclean' => cases hclean.symm.trans hclean'
    | notListed hclean' hlist' =>
      cases hclean.symm.trans hclean'
      cases hlist.symm.trans hlist'
    | processed hclean' hlist' hresults' =>
      cases hclean.symm.trans hclean'
      cases hlist.symm.trans hlist'
      rw [processJobs, if_pos hmore] at hresults'
      cases hresults.symm.trans hresults'
      exact ⟨turns, hrun⟩

end TypedClients.Run
