import Mathlib.Data.List.Pairwise
import TypedClients.Proofs.Run.Alone
import TypedClients.Proofs.Run.Cleaning

/-!
# Documents made at the same time come out as one after the other

The tasks of a parallel run work in the same tree. If the files of each are apart from the
files and documents of the others, and the paths are straight, every step does what it would
do in a run of its task alone. So whatever the order of the steps, the tree has in the end
what each document alone would have changed, and this is also what a run over one after the
other leaves.

* `Merges`: surroundings that have of each of some others what is different there.
* `Joined.turn`: whatever task takes a step, the tree has what each of them alone would have
  changed.
* `inTurn_eq_together`: every order gives the results and the tree of one after the other.
* `inTurn_ne_together`: this fails where a path is not straight, or where two documents are on
  standard input, although all files and documents are apart.
-/

namespace TypedClients.Run

open Files (Path Place Workspace Session Grown Straight Beside Unwritten)
open Files.Session

variable {s : Settings} {planOnly : Bool} {task : Task} {u v w w' : Workspace} {us : List Workspace}
  {rs others : List (Task × Workspace)} {p : Path} {q : Place}

/-! ## What each task alone would have changed -/

/-- What is seen of surroundings is what is seen of any of some others that have changed it,
and else as at the start. -/
structure Merged {α : Type} (see : Workspace → α) (v : Workspace) (us : List Workspace)
    (w : Workspace) :
    Prop where
  changed : ∀ u, u ∈ us → see u ≠ see v → see w = see u
  kept : (∀ u, u ∈ us → see u = see v) → see w = see v

section

variable {α : Type} {see : Workspace → α} {u' : Workspace}

theorem merged_self (h : ∀ u, u ∈ us → u = v) : Merged see v us v :=
  ⟨fun u hu hne => absurd (congrArg see (h u hu)) hne, fun _ => rfl⟩

theorem Merged.perm {us' : List Workspace} (h : Merged see v us w) (hperm : us.Perm us') :
    Merged see v us' w :=
  ⟨fun u hu => h.changed u (hperm.mem_iff.2 hu), fun hall => h.kept fun u hu => hall u
    (hperm.mem_iff.1 hu)⟩

/-- There is only one way to have all changes of some surroundings and no others. -/
theorem Merged.unique (h : Merged see v us w) (h' : Merged see v us w') : see w = see w' := by
  by_cases hall : ∀ u, u ∈ us → see u = see v
  · rw [h.kept hall, h'.kept hall]
  · simp only [not_forall] at hall
    obtain ⟨u, hu, hne⟩ := hall
    rw [h.changed u hu hne, h'.changed u hu hne]

/-- A change that is made in one of the others and in the surroundings alike, and no other way
by the rest. -/
theorem Merged.step (h : Merged see v (u :: us) w)
    (hchange : see u' = see u ∧ see w' = see w ∨
      see u' = see w' ∧ ∀ x, x ∈ us → see x ≠ see v → see x = see u') :
    Merged see v (u' :: us) w' := by
  rcases hchange with ⟨hu, hw⟩ | ⟨heq, hrest⟩
  · refine ⟨fun x hx hne => ?_, fun hall => ?_⟩
    · rw [hw]
      rcases List.mem_cons.1 hx with rfl | hx
      · rw [hu] at hne ⊢
        exact h.changed u List.mem_cons_self hne
      · exact h.changed x (List.mem_cons_of_mem _ hx) hne
    · rw [hw]
      refine h.kept fun x hx => ?_
      rcases List.mem_cons.1 hx with rfl | hx
      · exact hu.symm.trans (hall u' List.mem_cons_self)
      · exact hall x (List.mem_cons_of_mem _ hx)
  · refine ⟨fun x hx hne => ?_, fun hall => heq.symm.trans (hall u' List.mem_cons_self)⟩
    rcases List.mem_cons.1 hx with rfl | hx
    · exact heq.symm
    · exact heq.symm.trans (hrest x hx hne).symm

end

/-- Surroundings that have of each of some others what is different there, and are else as at
the start. -/
structure Merges (v : Workspace) (us : List Workspace) (w : Workspace) : Prop where
  places : ∀ q, Merged (fun x => x.tree.get? q) v us w
  input : Merged Workspace.input v us w

/-- Some tasks that work in the same surroundings, each with what it alone would have made. -/
structure Joined (s : Settings) (planOnly : Bool) (v : Workspace) (rs : List (Task × Workspace))
    (w : Workspace) : Prop where
  alone : ∀ r, r ∈ rs → Alone s planOnly v r.1 r.2
  grown : Grown v w
  merges : Merges v (rs.map Prod.snd) w

/-- If nothing is to be written, the tree stays as it is. -/
theorem Joined.grows_start (h : Joined s true v rs w) : w.tree.Grows v.tree := by
  have hsame : ∀ q, w.tree.get? q = v.tree.get? q := by
    refine fun q => (h.merges.places q).kept fun u hu => ?_
    obtain ⟨r, hr, rfl⟩ := List.mem_map.1 hu
    by_contra hne
    rcases (h.alone r hr).reached q hne with ⟨p, hp, -⟩ | ⟨-, -, p, hp, -⟩
    · cases (of_mem_paths hp).1
    · cases (of_mem_paths hp).1
  refine ⟨fun q hq => (hsame q).symm.trans hq, fun q target => by rw [hsame q],
    fun q bytes hq => ⟨bytes, ?_⟩⟩
  exact (hsame q).symm.trans hq

theorem Joined.perm {rs' : List (Task × Workspace)} (h : Joined s planOnly v rs w)
    (hperm : rs.Perm rs') :
    Joined s planOnly v rs' w where
  alone r hr := h.alone r (hperm.mem_iff.2 hr)
  grown := h.grown
  merges := ⟨fun q => (h.merges.places q).perm (hperm.map _), h.merges.input.perm (hperm.map _)⟩

/-- A place is as one task alone would have made it, unless another one has changed it. -/
theorem Joined.get?_cases (h : Joined s planOnly v ((task, u) :: others) w) (q : Place) :
    w.tree.get? q = u.tree.get? q ∨
      u.tree.get? q = v.tree.get? q ∧ ∃ r, r ∈ others ∧ w.tree.get? q = r.2.tree.get? q ∧
        Reached s planOnly v r.1.job r.2 q := by
  by_cases hu : u.tree.get? q = v.tree.get? q
  · by_cases hothers : ∀ r, r ∈ others → r.2.tree.get? q = v.tree.get? q
    · refine Or.inl (Eq.trans ((h.merges.places q).kept fun u' hu' => ?_) hu.symm)
      obtain ⟨r, hr, rfl⟩ := List.mem_map.1 hu'
      rcases List.mem_cons.1 hr with rfl | hr
      · exact hu
      · exact hothers r hr
    · simp only [not_forall] at hothers
      obtain ⟨r, hr, hne⟩ := hothers
      have hmem : r ∈ (task, u) :: others := List.mem_cons_of_mem _ hr
      exact Or.inr ⟨hu, r, hr, (h.merges.places q).changed _ (List.mem_map_of_mem hmem) hne,
        (h.alone r hmem).reached q hne⟩
  · exact Or.inl ((h.merges.places q).changed u List.mem_cons_self hu)

/-- On the way to a file of a task, the others have made nothing but folders. -/
theorem Joined.beside (h : Joined s planOnly v ((task, u) :: others) w)
    (hparted : ∀ r, r ∈ others → Parted s planOnly v task.job r.1.job)
    (hp : p ∈ task.job.paths s planOnly v) : Beside v u w p := by
  intro q hway
  rcases h.get?_cases q with heq | ⟨hu, r, hr, hw, hfile | ⟨hnone, hfolder, p', hp', hway'⟩⟩
  · exact Or.inl heq
  · obtain ⟨p', hp', rfl⟩ := hfile
    exact absurd hway ((hparted r hr).2.files p' hp' p hp)
  · refine Or.inr ⟨hu.trans hnone, hw.trans hfolder, ?_⟩
    rintro rfl
    exact (hparted r hr).1.files p hp p' hp' hway'

/-- The document of a task is as before, as long as the task has changed nothing itself. -/
theorem Joined.unwritten (h : Joined s planOnly v ((task, v) :: others) w)
    (hparted : ∀ r, r ∈ others → Parted s planOnly v task.job r.1.job)
    (hfile : task.job.ReadsFile) : Unwritten v w task.job.source := by
  rcases h.get?_cases (v.place task.job.source) with
    heq | ⟨-, r, hr, hw, ⟨p, hp, hplace⟩ | ⟨hnone, hfolder, -⟩⟩
  · exact Or.inl heq
  · exact absurd hplace.symm ((hparted r hr).2.document p hp hfile)
  · exact Or.inr ⟨hnone, hw.trans hfolder⟩

/-- What is on standard input is there for the only task that reads it, as long as it has not
done so. -/
theorem Joined.input_eq (h : Joined s planOnly v ((task, v) :: others) w)
    (hothers : ∀ r, r ∈ others → r.1.job.location ≠ Document.standardInput) :
    w.input = v.input := by
  refine h.merges.input.kept fun u hu => ?_
  rcases List.mem_cons.1 hu with rfl | hu
  · rfl
  obtain ⟨r, hr, rfl⟩ := List.mem_map.1 hu
  rcases (h.alone r (List.mem_cons_of_mem _ hr)).input with heq | ⟨-, hlocation⟩
  · exact heq
  · exact absurd hlocation (hothers r hr)

/-- What two tasks have both changed is a folder in both. -/
theorem get?_eq_of_reached {job other : Job} (hparted : Parted s planOnly v job other)
    (h : Reached s planOnly v job u q) (h' : Reached s planOnly v other w q) :
    u.tree.get? q = w.tree.get? q := by
  rcases h with ⟨p, hp, rfl⟩ | ⟨-, hfolder, p, hp, hway⟩
  · rcases h' with ⟨p', hp', hplace⟩ | ⟨-, -, p', hp', hway⟩
    · refine absurd ⟨[], ?_⟩ (hparted.1.files p hp p' hp')
      rw [List.append_nil, hplace]
    · exact absurd hway (hparted.1.files p hp p' hp')
  · rcases h' with ⟨p', hp', rfl⟩ | ⟨-, hfolder', -⟩
    · exact absurd hway (hparted.2.files p' hp' p hp)
    · exact hfolder.trans hfolder'.symm

/-- A task that takes a step as it would alone adds what this step changes. -/
theorem Joined.head (h : Joined s planOnly v ((task, u) :: others) w)
    (hparted : ∀ r, r ∈ others → Parted s planOnly v task.job r.1.job)
    (hstep : StepsAlike s planOnly v task u w) :
    ∃ u', Joined s planOnly v
      ((⟨task.job, (task.stage.step s planOnly task.job w).1⟩, u') :: others)
      (task.stage.step s planOnly task.job w).2 := by
  obtain ⟨stage, u', w', -, hstep, hw', halone, hchange, hinput⟩ := hstep
  rw [hstep]
  have hothers : ∀ r, r ∈ others → Alone s planOnly v r.1 r.2 := fun r hr =>
    h.alone r (List.mem_cons_of_mem _ hr)
  -- the others have changed nothing that this step changes, but to the same
  refine ⟨u', fun r hr => ?_, hw', fun q => (h.merges.places q).step ?_, h.merges.input.step ?_⟩
  · rcases List.mem_cons.1 hr with rfl | hr
    · exact halone
    · exact hothers r hr
  · refine (hchange q).imp_right fun hboth => ⟨hboth.1, fun x hx hne => ?_⟩
    obtain ⟨r, hr, rfl⟩ := List.mem_map.1 hx
    exact (get?_eq_of_reached (hparted r hr) hboth.2 ((hothers r hr).reached q hne)).symm
  · refine hinput.imp_right fun hread => ⟨hread.1.trans hread.2.symm, fun x hx hne => ?_⟩
    obtain ⟨r, hr, rfl⟩ := List.mem_map.1 hx
    rcases (hothers r hr).input with heq | ⟨hempty, -⟩
    · exact absurd heq hne
    · exact hempty.trans hread.1.symm

/-- Whatever task takes a step, the tree has what each of them alone would have changed. -/
theorem Joined.turn {turned : List Task} (hv : v.tree.Proper) (h : Joined s planOnly v rs w)
    (hapart : Apart s planOnly v (rs.map fun r => r.1.job))
    (hturn : Turn s planOnly (rs.map Prod.fst, w) (turned, w')) :
    ∃ rs', turned = rs'.map Prod.fst ∧ (rs'.map fun r => r.1.job) = (rs.map fun r => r.1.job) ∧
      Joined s planOnly v rs' w' := by
  generalize htasks : rs.map Prod.fst = tasks at hturn
  cases hturn with
  | step before after _ =>
    obtain ⟨bs, rest, rfl, rfl, hrest⟩ := List.map_eq_append_iff.1 htasks
    obtain ⟨⟨task, u⟩, as, rfl, rfl, rfl⟩ := List.map_eq_cons_iff.1 hrest
    -- the order of the tasks does not matter, so the one that takes a step comes first
    have hhead := h.perm List.perm_middle
    have hmem : task.job ∈ (bs ++ (task, u) :: as).map fun r => r.1.job :=
      List.mem_map.2 ⟨(task, u), by simp, rfl⟩
    have hpairs : (bs ++ (task, u) :: as).Pairwise fun r r' => Parted s planOnly v
      r.1.job r'.1.job :=
      List.pairwise_map.1 hapart.parted
    have hparted := (List.pairwise_cons.1 ((List.pairwise_middle Parted.symm).1 hpairs)).1
    have hinputs : (bs ++ (task, u) :: as).Pairwise fun r r' => r.1.job.location =
      Document.standardInput →
      r'.1.job.location ≠ Document.standardInput := List.pairwise_map.1 hapart.input
    have hreaders := (List.pairwise_cons.1
      ((List.pairwise_middle fun h hother hthis => h hthis hother).1 hinputs)).1
    have hstraight : task.job.ReadsFile → Straight v task.job.source ∨ w.tree.Grows v.tree := by
      intro hfile
      cases planOnly with
      | false => exact Or.inl (hapart.straightSource rfl _ hmem hfile)
      | true => exact Or.inr h.grows_start
    have hstep : StepsAlike s planOnly v task u w := by
      refine (h.alone (task, u) (by simp)).step hv h.grown (hapart.straight _ hmem)
        (fun p hp => hhead.beside hparted hp) (fun hlocation => ?_) fun hfile =>
        ⟨hstraight hfile, ?_⟩
      · rintro rfl
        exact hhead.input_eq fun r hr => hreaders r hr hlocation
      · rintro rfl
        exact hhead.unwritten hparted hfile
    obtain ⟨u', hjoined⟩ := hhead.head hparted hstep
    refine ⟨bs ++ (⟨task.job, (task.stage.step s planOnly task.job w).1⟩, u') :: as, ?_, ?_,
      hjoined.perm List.perm_middle.symm⟩
    · rw [List.map_append, List.map_cons]
    · rw [List.map_append, List.map_append, List.map_cons, List.map_cons]

/-- Alone, a task starts from the surroundings in which all start. -/
theorem joined_start (hv : v.tree.Proper) (jobs : List Job) :
    Joined s planOnly v (jobs.map fun job => (⟨job, .waiting⟩, v)) v where
  alone r hr := by
    obtain ⟨job, -, rfl⟩ := List.mem_map.1 hr
    exact ⟨.refl hv, rfl, fun q hne => absurd rfl hne, Or.inl rfl, rfl⟩
  grown := .refl hv
  merges := by
    have hsame : ∀ u, u ∈ (jobs.map fun job => (Task.mk job .waiting, v)).map Prod.snd → u = v := by
      intro u hu
      obtain ⟨r, hr, rfl⟩ := List.mem_map.1 hu
      obtain ⟨job, -, rfl⟩ := List.mem_map.1 hr
      rfl
    exact ⟨fun q => merged_self hsame, merged_self hsame⟩

/-- However some tasks take turns, the tree has what each of them alone would have changed. -/
theorem joined_of_interleaved {jobs : List Job} {reached : List Task × Workspace}
    (hv : v.tree.Proper) (hapart : Apart s planOnly v jobs)
    (h : Interleaved s planOnly (jobs.map fun job => ⟨job, .waiting⟩, v) reached) :
    ∃ rs, reached.1 = rs.map Prod.fst ∧ (rs.map fun r => r.1.job) = jobs ∧
      Joined s planOnly v rs reached.2 := by
  induction h with
  | refl =>
    refine ⟨_, ?_, ?_, joined_start hv jobs⟩
    · rw [List.map_map]
      rfl
    · rw [List.map_map]
      exact List.map_id _
  | @tail earlier later _ hturn ih =>
    obtain ⟨rs, hrs, hjobs, hjoined⟩ := ih
    obtain ⟨tasks, w⟩ := earlier
    obtain ⟨turned, w'⟩ := later
    obtain rfl : tasks = rs.map Prod.fst := hrs
    obtain ⟨rs', hturned, hjobs', hjoined'⟩ := hjoined.turn hv (hjobs.symm ▸ hapart) hturn
    exact ⟨rs', hturned, hjobs'.trans hjobs, hjoined'⟩

/-! ## When all tasks are done -/

/-- What a job gives alone, and the surroundings that it leaves. -/
def Job.alone (s : Settings) (planOnly : Bool) (v : Workspace) (job : Job) :
    Except Failure Made × Workspace :=
  (make job.location job.folder (s.options job.serviceName) planOnly).outcome v

/-- Tasks that are all done have given what each gives alone. -/
theorem Joined.ends {results : List SourceResult} (h : Joined s planOnly v rs w)
    (hgather : gather (rs.map Prod.fst) = some results) :
    results = (rs.map fun r => r.1.job).map
      (fun job => ⟨job.location, (job.alone s planOnly v).1⟩) ∧
      rs.map Prod.snd = (rs.map fun r => r.1.job).map fun job => (job.alone s planOnly v).2 := by
  have halone := h.alone
  clear h
  induction rs generalizing results with
  | nil =>
    cases hgather
    exact ⟨rfl, rfl⟩
  | cons r rs ih =>
    obtain ⟨⟨job, stage⟩, u⟩ := r
    rw [List.map_cons, gather] at hgather
    split at hgather
    next outcome hstage =>
      obtain ⟨others, hothers, rfl⟩ := Option.map_eq_some_iff.1 hgather
      obtain ⟨hresults, hus⟩ := ih hothers fun r hr => halone r (List.mem_cons_of_mem _ hr)
      have hrest := (halone _ List.mem_cons_self).rest
      obtain rfl : stage = .done outcome := hstage
      rw [outcome_rest_done] at hrest
      have hjob : job.alone s planOnly v = (outcome, u) := hrest.symm
      simp only [List.map_cons, hjob]
      exact ⟨by rw [← hresults], by rw [hus]⟩
    next => cases hgather

/-- The results of all orders in which some jobs can take turns are the same, and so are the
trees. -/
theorem interleaved_unique {jobs : List Job} {tasks tasks' : List Task}
    {results results' : List SourceResult} (hv : v.tree.Proper) (hapart : Apart s planOnly v jobs)
    (h : Interleaved s planOnly (jobs.map fun job => ⟨job, .waiting⟩, v) (tasks, w))
    (h' : Interleaved s planOnly (jobs.map fun job => ⟨job, .waiting⟩, v) (tasks', w'))
    (hgather : gather tasks = some results) (hgather' : gather tasks' = some results') :
    results' = results ∧ w' = { w with tree := w'.tree } ∧ ∀ q, w'.tree.get? q = w.tree.get? q := by
  obtain ⟨rs, rfl, hjobs, hjoined⟩ := joined_of_interleaved hv hapart h
  obtain ⟨rs', hrs', hjobs', hjoined'⟩ := joined_of_interleaved hv hapart h'
  obtain rfl : tasks' = rs'.map Prod.fst := hrs'
  obtain ⟨hresults, hus⟩ := hjoined.ends hgather
  obtain ⟨hresults', hus'⟩ := hjoined'.ends hgather'
  rw [hjobs] at hresults hus
  rw [hjobs'] at hresults' hus'
  have hmerges := hjoined'.merges
  rw [hus', ← hus] at hmerges
  refine ⟨hresults'.trans hresults.symm, ?_, fun q => (hmerges.places q).unique
    (hjoined.merges.places q)⟩
  have hrest : w = { v with tree := w.tree, input := w.input } := hjoined.grown.rest
  have hrest' : w' = { v with tree := w'.tree, input := w'.input } := hjoined'.grown.rest
  have hinput : w'.input = w.input := hmerges.input.unique hjoined.merges.input
  rw [hrest', hinput, hrest]

/-! ## Whole runs -/

/-- If earlier output cannot be cleared away, a run ends with that. -/
theorem Together.of_not_cleared {r : Except Failure Results} {f : Failure}
    (h : Together s planOnly w r w')
    (hclean : (cleanAll (toClear s planOnly)).outcome w = (.error f, v)) :
    r = .error f ∧ w' = v := by
  cases h with
  | notCleared hclean' =>
    cases hclean.symm.trans hclean'
    exact ⟨rfl, rfl⟩
  | notListed hclean' => cases hclean.symm.trans hclean'
  | done hclean' => cases hclean.symm.trans hclean'

/-- If the documents cannot be listed, a run ends with that. -/
theorem Together.of_not_listed {r : Except Failure Results} {f : Failure}
    (h : Together s planOnly w r w')
    (hclean : (cleanAll (toClear s planOnly)).outcome w = (.ok (), v))
    (hlist : (collect s (active s)).outcome v = (.error f, u)) : r = .error f ∧ w' = u := by
  cases h with
  | notCleared hclean' => cases hclean.symm.trans hclean'
  | notListed hclean' hlist' =>
    cases hclean.symm.trans hclean'
    cases hlist.symm.trans hlist'
    exact ⟨rfl, rfl⟩
  | done hclean' hlist' =>
    cases hclean.symm.trans hclean'
    cases hlist.symm.trans hlist'

/-- Else it ends when the tasks for these documents are done, in some order. -/
theorem Together.of_listed {r : Except Failure Results} {jobs : List Job}
    {unlisted : List SourceResult} (h : Together s planOnly w r w')
    (hclean : (cleanAll (toClear s planOnly)).outcome w = (.ok (), v))
    (hlist : (collect s (active s)).outcome v = (.ok (jobs, unlisted), u)) :
    ∃ tasks results, Interleaved s planOnly (jobs.map fun job => ⟨job, .waiting⟩, u) (tasks, w') ∧
      gather tasks = some results ∧
      r = .ok ⟨s.sources.length, s.sources.length - (active s).length, unlisted ++ results⟩ := by
  cases h with
  | notCleared hclean' => cases hclean.symm.trans hclean'
  | notListed hclean' hlist' =>
    cases hclean.symm.trans hclean'
    cases hlist.symm.trans hlist'
  | done hclean' hlist' hturns hgather =>
    cases hclean.symm.trans hclean'
    cases hlist.symm.trans hlist'
    exact ⟨_, _, hturns, hgather, rfl⟩

/-- However the tasks of a run take turns, it gives the results of a run that takes one
document after the other, and leaves the same tree; and there is such an order. -/
theorem inTurn_eq_together {r : Except Failure Results} (hproper : w.tree.Proper)
    (hapart : ∀ v jobs unlisted, (cleanAll (toClear s planOnly)).outcome w = (.ok (), v) →
      (collect s (active s)).outcome v = (.ok (jobs, unlisted), v) → Apart s planOnly v jobs)
    (h : (inTurn s planOnly).outcome w = (r, w')) :
    Together s planOnly w r w' ∧ ∀ r' w'', Together s planOnly w r' w'' →
      r' = r ∧ w'' = { w' with tree := w''.tree } ∧ ∀ q, w''.tree.get? q = w'.tree.get? q := by
  have hthis := together_of_inTurn h
  refine ⟨hthis, fun r' w'' hother => ?_⟩
  cases hthis with
  | notCleared hclean =>
    obtain ⟨rfl, rfl⟩ := hother.of_not_cleared hclean
    exact ⟨rfl, rfl, fun _ => rfl⟩
  | notListed hclean hlist =>
    obtain ⟨rfl, rfl⟩ := hother.of_not_listed hclean hlist
    exact ⟨rfl, rfl, fun _ => rfl⟩
  | done hclean hlist hturns hgather =>
    obtain ⟨tasks, results, hturns', hgather', rfl⟩ := hother.of_listed hclean hlist
    obtain rfl := eq_of_collect hlist
    obtain ⟨gone, hcleared⟩ := cleared_of_cleanAll hclean
    obtain ⟨rfl, hrest, hget⟩ := interleaved_unique (proper_of_cleared hcleared hproper)
      (hapart _ _ _ hclean hlist) hturns hturns' hgather hgather'
    exact ⟨rfl, hrest, hget⟩

/-- A document with one group. -/
def documentText : String :=
  "\x7b\"swagger\":\"2.0\",\"paths\":\x7b\"/visits\":\x7b\"get\":\x7b\x7d\x7d\x7d\x7d"

/-- A working folder with two documents and an empty file. The document on standard input says
nothing. -/
def documentsWorkspace : Workspace where
  tree := ⟨[(["work"], .folder), (["work", "a.json"], .file documentText.toUTF8.toList),
    (["work", "b.json"], .file documentText.toUTF8.toList), (["work", "empty.json"], .file [])]⟩
  folder := ["work"]
  environment := []
  userHome := some "/root"
  system := "Linux"
  input := "\x7b\x7d"
  replies := []
  refusals := []
  nestingLimit := 300

theorem proper_documentsWorkspace : documentsWorkspace.tree.Proper :=
  Files.Tree.proper_of_entries (by decide +kernel)

/-- A document with the name of its service. -/
def sourceFor (name location : String) (outputDir : Option String) : Source :=
  ⟨.file, location, some name, outputDir, false⟩

/-- Settings that keep earlier output. -/
def settingsFor (sources : List Source) : Settings :=
  { Settings.default with sources := sources, cleanOutput := false }

/-- Settings for two documents that are there and one that is not. -/
def threeDocuments : Settings :=
  settingsFor [sourceFor "Clinic" "a.json" none, sourceFor "Lab" "b.json" none,
    sourceFor "Ward" "c.json" none]

/-- The job for a document whose clients go to some folder. -/
def jobFor (name location : String) (folder : List String) : Job :=
  ⟨location, some name, ⟨0, folder ++ ["generatedClients"]⟩⟩

/-- The jobs for these documents. -/
def threeJobs : List Job :=
  [jobFor "Clinic" "a.json" ["src", "clients"], jobFor "Lab" "b.json" ["src", "clients"],
    jobFor "Ward" "c.json" ["src", "clients"]]

/-- The paths of the files of a service with one group. -/
def pathsOf (name : String) (folder : List String) : List Path :=
  [⟨0, folder ++ ["generatedClients", name, "Root", "types.ts"]⟩,
    ⟨0, folder ++ ["generatedClients", name, "Root", name ++ "RootClient.ts"]⟩]

theorem straight_of_new {first : String} {rest : List String}
    (hnew : documentsWorkspace.tree.get? (["work"] ++ [first]) = none)
    (hnames : ∀ n, n ∈ first :: rest → Files.IsOrdinary n) :
    Straight documentsWorkspace ⟨0, first :: rest⟩ :=
  fun _ => ⟨[], ["work"], first, rest, rfl, ⟨rfl, by decide⟩, hnew, hnames⟩

theorem straight_of_mem_paths {p : Path}
    (hp : p ∈ pathsOf "Clinic" ["src", "clients"] ++ pathsOf "Lab" ["src", "clients"]) :
    Straight documentsWorkspace p := by
  rcases List.mem_append.1 hp with hp | hp
  · rcases List.mem_pair.1 hp with rfl | rfl
    · exact straight_of_new (by decide +kernel) (by decide +kernel)
    · exact straight_of_new (by decide +kernel) (by decide +kernel)
  · rcases List.mem_pair.1 hp with rfl | rfl
    · exact straight_of_new (by decide +kernel) (by decide +kernel)
    · exact straight_of_new (by decide +kernel) (by decide +kernel)

theorem parted_of_paths {job other : Job} {ps qs : List Path} (hps : job.paths s planOnly v = ps)
    (hqs : other.paths s planOnly v = qs)
    (hfiles : ∀ p, p ∈ ps → ∀ q, q ∈ qs → ¬ v.place p <+: v.place q ∧ ¬ v.place q <+: v.place p)
    (hdocuments : (∀ p, p ∈ ps → v.place p ≠ v.place other.source) ∧
      ∀ q, q ∈ qs → v.place q ≠ v.place job.source) : Parted s planOnly v job other := by
  subst hps hqs
  exact ⟨⟨fun p hp q hq => (hfiles p hp q hq).1, fun p hp _ => hdocuments.1 p hp⟩,
    ⟨fun q hq p hp => (hfiles p hp q hq).2, fun q hq _ => hdocuments.2 q hq⟩⟩

theorem apart_threeJobs : Apart threeDocuments false documentsWorkspace threeJobs := by
  have hclinic : (jobFor "Clinic" "a.json" ["src", "clients"]).paths threeDocuments false
    documentsWorkspace =
      pathsOf "Clinic" ["src", "clients"] := by decide +kernel
  have hlab : (jobFor "Lab" "b.json" ["src", "clients"]).paths threeDocuments false
    documentsWorkspace =
      pathsOf "Lab" ["src", "clients"] := by decide +kernel
  have hnone : (jobFor "Ward" "c.json" ["src", "clients"]).paths threeDocuments false
    documentsWorkspace =
      [] := by decide +kernel
  refine ⟨?_, ?_, ?_, by decide⟩
  · refine .cons (fun job hjob => ?_) (.cons (fun job hjob => ?_) (List.pairwise_singleton _ _))
    · rcases List.mem_pair.1 hjob with rfl | rfl
      · exact parted_of_paths hclinic hlab (by decide +kernel) (by decide +kernel)
      · exact parted_of_paths hclinic hnone (by decide +kernel) (by decide +kernel)
    · rw [List.mem_singleton.1 hjob]
      exact parted_of_paths hlab hnone (by decide +kernel) (by decide +kernel)
  · intro job hjob p hp
    have hpaths : p ∈ pathsOf "Clinic" ["src", "clients"] ++ pathsOf "Lab" ["src", "clients"] := by
      rcases List.mem_cons.1 hjob with rfl | hjob
      · exact List.mem_append_left _ (hclinic ▸ hp)
      rcases List.mem_pair.1 hjob with rfl | rfl
      · exact List.mem_append_right _ (hlab ▸ hp)
      · exact absurd (hnone ▸ hp) List.not_mem_nil
    exact straight_of_mem_paths hpaths
  · intro _ job hjob hfile
    rcases List.mem_cons.1 hjob with rfl | hjob
    · exact fun hmissing => absurd hmissing (by decide +kernel)
    rcases List.mem_pair.1 hjob with rfl | rfl
    · exact fun hmissing => absurd hmissing (by decide +kernel)
    · exact straight_of_new (by decide +kernel) (by decide +kernel)

/-- Listing what there is to be listed, as it can be computed. -/
theorem outcome_collect_of {jobs : List Job}
    (h : ((collect s (active s)).outcome w).1.toOption.map
      (fun listed => (listed.1, listed.2.length)) = some (jobs, 0)) :
    (collect s (active s)).outcome w = (.ok (jobs, []), w) := by
  have hreads := (reads_collect s (active s)).outcome w
  rw [hreads]
  cases hlist : ((collect s (active s)).outcome w).1 with
  | error f =>
    rw [hlist] at h
    cases h
  | ok listed =>
    rw [hlist] at h
    obtain ⟨hjobs, hlength⟩ := Prod.mk.inj (Option.some.inj h)
    obtain ⟨jobs', unlisted⟩ := listed
    obtain rfl : unlisted = [] := List.length_eq_zero_iff.1 hlength
    obtain rfl : jobs' = jobs := hjobs
    rfl

theorem inTurn_eq_together_threeDocuments :
    documentsWorkspace.tree.Proper ∧
      (∀ v jobs unlisted, (cleanAll (toClear threeDocuments false)).outcome documentsWorkspace =
        (.ok (), v) →
        (collect threeDocuments (active threeDocuments)).outcome v = (.ok (jobs, unlisted), v) →
          Apart threeDocuments false v jobs) ∧
      ∃ r w', (inTurn threeDocuments false).outcome documentsWorkspace = (r, w') ∧
        Together threeDocuments false documentsWorkspace r w' ∧
        ∀ r' w'', Together threeDocuments false documentsWorkspace r' w'' →
          r' = r ∧ w'' = { w' with tree := w''.tree } ∧ ∀ q, w''.tree.get? q = w'.tree.get? q := by
  have hcollect : (collect threeDocuments (active threeDocuments)).outcome documentsWorkspace =
      (.ok (threeJobs, []), documentsWorkspace) :=
    outcome_collect_of (by decide +kernel)
  have hapart : ∀ v jobs unlisted,
      (cleanAll (toClear threeDocuments false)).outcome documentsWorkspace = (.ok (), v) →
      (collect threeDocuments (active threeDocuments)).outcome v = (.ok (jobs, unlisted), v) →
        Apart threeDocuments false v jobs := by
    intro v jobs unlisted hclean hlist
    cases hclean
    cases hcollect.symm.trans hlist
    exact apart_threeJobs
  generalize hrun : (inTurn threeDocuments false).outcome documentsWorkspace = ended
  obtain ⟨r, w'⟩ := ended
  exact ⟨proper_documentsWorkspace, hapart, r, w', rfl,
    inTurn_eq_together proper_documentsWorkspace hapart hrun⟩

/-- A task that has read its document, and has made the folders for its first file. -/
def begun (s : Settings) (job : Job) (w : Workspace) : Stage × Workspace :=
  let read := Stage.waiting.step s false job w
  read.1.step s false job read.2

/-- The documents of a run write different files, and none of the documents, but the first one
of them fails with another text if a task for another one has begun before. -/
structure FirstDiffers (s : Settings) (w : Workspace) (text text' : String) : Prop where
  parted : ∃ jobs, (collect s (active s)).outcome w = (.ok (jobs, []), w) ∧
    jobs.Pairwise (Parted s false w)
  inTurn : ∃ results w', (inTurn s false).outcome w = (.ok results, w') ∧
    results.results.head?.map SourceResult.errors = some [text]
  together : ∃ results w', Together s false w (.ok results) w' ∧
    results.results.head?.map SourceResult.errors = some [text']
  differs : text ≠ text'

theorem firstDiffers (job other : Job) {text text' : String} (hclear : toClear s false = [])
    (hlist : (collect s (active s)).outcome w = (.ok ([job, other], []), w))
    (hparted : Parted s false w job other)
    (htext : SourceResult.errors ⟨job.location, (job.alone s false w).1⟩ = [text])
    (htext' : SourceResult.errors ⟨job.location, (job.alone s false (begun s other w).2).1⟩ =
      [text'])
    (hne : text ≠ text') : FirstDiffers s w text text' := by
  have hclean : (cleanAll (toClear s false)).outcome w = (.ok (), w) := by
    rw [hclear]
    rfl
  refine ⟨⟨_, hlist, .cons (fun r hr => ?_) (List.pairwise_singleton _ _)⟩, ?_, ?_, hne⟩
  · rw [List.mem_singleton.1 hr]
    exact hparted
  · generalize hrun : (inTurn s false).outcome w = ended
    obtain ⟨r, w'⟩ := ended
    cases phases_of_inTurn hrun with
    | notCleared hclean' => cases hclean.symm.trans hclean'
    | notListed hclean' hlist' =>
      cases hclean.symm.trans hclean'
      cases hlist.symm.trans hlist'
    | processed hclean' hlist' hresults =>
      cases hclean.symm.trans hclean'
      cases hlist.symm.trans hlist'
      rw [processAll, outcome_bind, outcome_process] at hresults
      rcases outcome_bind_cases hresults with ⟨_, -, he⟩ | ⟨others, u, -, hpure⟩
      · cases he
      cases hpure
      exact ⟨_, w', rfl, congrArg some htext⟩
  · obtain ⟨outcome, u, hrest, hturns⟩ := finishes s false job .waiting (begun s other w).2
    obtain ⟨outcome', w', -, hturns'⟩ := finishes s false other (begun s other w).1 u
    have hrun : job.alone s false (begun s other w).2 = (outcome, u) := hrest
    rw [hrun] at htext'
    have hbegun : Interleaved s false ([job, other].map fun job => ⟨job, .waiting⟩, w)
        ([⟨job, .waiting⟩, ⟨other, (begun s other w).1⟩], (begun s other w).2) :=
      .tail (.single (.step [⟨job, .waiting⟩] [] ⟨other, .waiting⟩ w))
        (.step [⟨job, .waiting⟩] [] _ _)
    exact ⟨_, w', .done hclean hlist ((hbegun.trans (hturns [] _)).trans (hturns' [_] [])) rfl,
      congrArg some htext'⟩

/-- A document whose path goes through a folder that the files of another one bring. -/
def detour : Settings :=
  settingsFor [sourceFor "Lab" "src/../empty.json" none, sourceFor "Clinic" "a.json" none]

theorem firstDiffers_detour : FirstDiffers detour documentsWorkspace
    "Spec file not found: src/../empty.json" "Spec file is empty: src/../empty.json" := by
  have hnone : (jobFor "Lab" "src/../empty.json" ["src", "clients"]).paths detour false
    documentsWorkspace =
      [] := by decide +kernel
  have hclinic : (jobFor "Clinic" "a.json" ["src", "clients"]).paths detour false
    documentsWorkspace =
      pathsOf "Clinic" ["src", "clients"] := by decide +kernel
  exact firstDiffers _ _ rfl (outcome_collect_of (by decide +kernel))
    (parted_of_paths hnone hclinic (by decide +kernel) (by decide +kernel)) (by decide +kernel)
    (by decide +kernel) (by decide)

/-- Clients that cannot be written, as a file is in the way, with a path there through a
folder that the files of another document bring. -/
def blocked : Settings :=
  settingsFor [sourceFor "Lab" "b.json" (some "out/../empty.json"),
    sourceFor "Clinic" "a.json" (some "out")]

theorem firstDiffers_blocked : FirstDiffers blocked documentsWorkspace
    "[Errno 17] File exists: 'out/../empty.json'"
    "[Errno 20] Not a directory: 'out/../empty.json/generatedClients/Lab/Root'" := by
  have hlab : (jobFor "Lab" "b.json" ["out", "..", "empty.json"]).paths blocked false
    documentsWorkspace =
      pathsOf "Lab" ["out", "..", "empty.json"] := by decide +kernel
  have hclinic : (jobFor "Clinic" "a.json" ["out"]).paths blocked false documentsWorkspace =
      pathsOf "Clinic" ["out"] := by decide +kernel
  exact firstDiffers _ _ rfl (outcome_collect_of (by decide +kernel))
    (parted_of_paths hlab hclinic (by decide +kernel) (by decide +kernel)) (by decide +kernel)
    (by decide +kernel) (by decide)

/-- What is on standard input, for two services. -/
def shared : Settings := settingsFor [sourceFor "Lab" "-" none, sourceFor "Clinic" "-" none]

theorem firstDiffers_shared : FirstDiffers shared documentsWorkspace
    "Missing version marker: expected \"swagger\": \"2.0\" or an \"openapi\" 3.x version"
    "No input received from stdin" := by
  have hlab : (jobFor "Lab" "-" ["src", "clients"]).paths shared false documentsWorkspace = [] := by
    decide +kernel
  have hclinic : (jobFor "Clinic" "-" ["src", "clients"]).paths shared false documentsWorkspace =
    [] := by
    decide +kernel
  exact firstDiffers _ _ rfl (outcome_collect_of (by decide +kernel))
    (parted_of_paths hlab hclinic (by decide +kernel) (by decide +kernel)) (by decide +kernel)
    (by decide +kernel) (by decide)

/-- Where a path is not straight, or two documents are on standard input, the results of a run
can depend on the order, although all files and documents are apart. -/
theorem inTurn_ne_together :
    FirstDiffers detour documentsWorkspace
        "Spec file not found: src/../empty.json" "Spec file is empty: src/../empty.json" ∧
      FirstDiffers blocked documentsWorkspace "[Errno 17] File exists: 'out/../empty.json'"
        "[Errno 20] Not a directory: 'out/../empty.json/generatedClients/Lab/Root'" ∧
      FirstDiffers shared documentsWorkspace
        "Missing version marker: expected \"swagger\": \"2.0\" or an \"openapi\" 3.x version"
        "No input received from stdin" :=
  ⟨firstDiffers_detour, firstDiffers_blocked, firstDiffers_shared⟩

end TypedClients.Run
