import TypedClients.Proofs.Run.Tasks

/-!
# What is made of one document

A document gives an output, or there is none; this is settled before the first file is
written. With an output its files are written one after the other, unless only a plan is
wanted.

* `outcome_plan_of_outputs`, `exists_outcome_plan_error`: what is planned for a document.
* `outcome_make_plan`, `outcome_make_of_outputs`: what comes of a plan, and of making the
  clients for real.
* `outcome_make_writes`: which files are written for a document.
-/

namespace TypedClients.Run

open Files (Path Workspace Write Writes)
open Files.Session
open Writing (Queue Starts Stopped filesOf writesOf)

variable {s : Settings} {job : Job} {source : String} {folder : Path} {options : Options}
    {planOnly : Bool}
  {w w' : Workspace} {out out' : Output} {r : Except Failure Made}

/-! ## Outputs and plans -/

/-- The output that a document gives under some options. -/
def Outputs (source : String) (options : Options) (w : Workspace) (out : Output) : Prop :=
  ∃ root document, ((Document.fetch source).outcome w).1 = .ok root ∧
    (Document.load root).outcome = .ok document ∧
    (document.generate w.nestingLimit options).outcome = .ok out

theorem Outputs.unique (h : Outputs source options w out) (h' : Outputs source options w out') :
    out = out' := by
  obtain ⟨root, document, hfetch, hload, hout⟩ := h
  obtain ⟨root', document', hfetch', hload', hout'⟩ := h'
  rw [hfetch] at hfetch'
  cases hfetch'
  rw [hload] at hload'
  cases hload'
  exact Except.ok.inj (hout.symm.trans hout')

/-- All options are those of a job of some settings. -/
theorem exists_settings (options : Options) :
    ∃ s : Settings, s.options options.serviceName = options :=
  ⟨{ Settings.default with
      transport := options.transport
      rules := options.rules
      versions := options.versions
      window := options.window }, rfl⟩

/-- The files of a document that gives an output are planned, or only its name and the tree of
the files. -/
theorem outcome_plan_of_outputs (s : Settings) (job : Job)
    (h : Outputs job.location (s.options job.serviceName) w out) (planOnly : Bool) :
    (plan s planOnly job).outcome w =
      (.ok (⟨out.serviceName,
          (if planOnly then [] else filesOf out).map fun e => (job.folder.below e.1).text,
          out.preview⟩,
          if planOnly then [] else filesOf out),
        Document.afterFetch job.location w) := by
  obtain ⟨root, document, hroot, hload, hgenerate⟩ := h
  have hfetch : (Document.fetch job.location).outcome w =
    (.ok root, Document.afterFetch job.location w) :=
    Prod.ext hroot (Document.outcome_fetch_snd job.location w)
  simp only [plan, outcome_bind, hfetch, outcome_checked, hload, outcome_generate,
    Document.afterFetch_nestingLimit, hgenerate, outcome_pure,
    Writing.files_addFolders_of_generate hgenerate]

/-- Without an output planning fails, whether files are to be written or not. -/
theorem exists_outcome_plan_error (s : Settings) (job : Job)
    (h : ∀ out, ¬ Outputs job.location (s.options job.serviceName) w out) :
    ∃ f, ∀ planOnly, (plan s planOnly job).outcome w =
    (.error f, Document.afterFetch job.location w) := by
  have hleft := Document.outcome_fetch_snd job.location w
  generalize hfetch : (Document.fetch job.location).outcome w = q at hleft
  obtain ⟨f | root, v⟩ := q
  · subst hleft
    exact ⟨f, fun planOnly => by simp only [plan, outcome_bind, hfetch]⟩
  subst hleft
  cases hload : (Document.load root).outcome with
  | error f => exact ⟨f, fun planOnly => by simp only [plan, outcome_bind, hfetch,
    outcome_checked, hload]⟩
  | ok document =>
    cases hgenerate : (document.generate w.nestingLimit (s.options job.serviceName)).outcome with
    | error f =>
      refine ⟨f, fun planOnly => ?_⟩
      simp only [plan, outcome_bind, hfetch, outcome_checked, hload, outcome_generate,
        Document.afterFetch_nestingLimit, hgenerate]
    | ok out => exact absurd ⟨root, document, by rw [hfetch], hload, hgenerate⟩ (h out)

/-- With a plan in view nothing is written. -/
theorem outcome_make_plan (s : Settings) (job : Job) (w : Workspace) :
    (make job.location job.folder (s.options job.serviceName) true).outcome w =
      (((plan s true job).outcome w).1.map Prod.fst, Document.afterFetch job.location w) := by
  rw [outcome_make_eq, outcome_bind]
  by_cases hout : ∃ out, Outputs job.location (s.options job.serviceName) w out
  · obtain ⟨out, hout⟩ := hout
    rw [outcome_plan_of_outputs s job hout]
    rfl
  · obtain ⟨f, hplan⟩ := exists_outcome_plan_error s job (not_exists.1 hout)
    rw [hplan]
    rfl

/-- What is made for real of a document with an output is what its files are written for. -/
theorem outcome_make_of_outputs (s : Settings) (job : Job)
    (h : Outputs job.location (s.options job.serviceName) w out) :
    (make job.location job.folder (s.options job.serviceName) false).outcome w =
      (do
        let _ ← Queue.writeFiles job.folder (filesOf out)
        return Made.mk out.serviceName ((filesOf out).map fun e => (job.folder.below e.1).text)
          out.preview : Files.Session Made).outcome (Document.afterFetch job.location w) := by
  rw [outcome_make_eq, outcome_bind, outcome_plan_of_outputs s job h]
  rfl

/-! ## What is written -/

/-- Some files of a document are written, unless only a plan is wanted: all of them, if it is
made, or those before the first one that fails. -/
inductive WritesFor (source : String) (folder : Path) (options : Options) (w : Workspace) :
    Bool → Except Failure Made → List Write → Prop
  | planned {out : Output} : Outputs source options w out →
    WritesFor source folder options w true (.ok ⟨out.serviceName, [], out.preview⟩) []
  | made {out : Output} : Outputs source options w out →
    WritesFor source folder options w false
      (.ok ⟨out.serviceName, (writesOf folder out).map (·.path.text), out.preview⟩)
      (writesOf folder out)
  | noOutput {planOnly : Bool} {f : Failure} : (∀ out, ¬ Outputs source options w out) →
    WritesFor source folder options w planOnly (.error f) []
  | stopped {f : Failure} {out : Output} {es : List Write} : Outputs source options w out →
    Stopped (writesOf folder out) es →
    (es ≠ [] ↔ Starts folder (filesOf out) (Document.afterFetch source w)) →
    WritesFor source folder options w false (.error f) es

theorem outcome_make_writes (hproper : w.tree.Proper)
    (h : (make source folder options planOnly).outcome w = (r, w')) :
    ∃ es, Writes (Document.afterFetch source w) es w' ∧
      WritesFor source folder options w planOnly r es := by
  have hproper' : (Document.afterFetch source w).tree.Proper := by
    rw [Document.afterFetch_tree]
    exact hproper
  obtain ⟨s, hs⟩ := exists_settings options
  have hmake := outcome_make_eq s planOnly ⟨source, options.serviceName, folder⟩ w
  simp only [hs, h] at hmake
  by_cases hout : ∃ out, Outputs source options w out
  · obtain ⟨out, hout⟩ := hout
    have hjob : Outputs source (s.options options.serviceName) w out := hs.symm ▸ hout
    have hplan := outcome_plan_of_outputs s ⟨source, options.serviceName, folder⟩ hjob planOnly
    rw [outcome_bind, hplan] at hmake
    cases planOnly with
    | true =>
      cases hmake
      exact ⟨[], .refl hproper', .planned hout⟩
    | false =>
      obtain ⟨_, document, -, -, hgenerate⟩ := id hout
      rcases outcome_bind_cases hmake.symm with ⟨f, hwrite, rfl⟩ | ⟨targets, v, hwrite, hpure⟩
      · rcases Writing.outcome_writeFiles hproper'
            (fun e he => Writing.parts_ne_nil_of_mem_filesOf hgenerate he) hwrite with
          ⟨hr, -⟩ | ⟨_, es, -, hstopped, hes, hstarts⟩
        · cases hr
        · exact ⟨es, hes, .stopped hout hstopped hstarts⟩
      · cases hpure
        rcases Writing.outcome_writeFiles hproper'
            (fun e he => Writing.parts_ne_nil_of_mem_filesOf hgenerate he) hwrite with
          ⟨-, hes⟩ | ⟨_, _, hr, -⟩
        · have hmade : WritesFor source folder options w false _ _ := .made hout
          rw [writesOf, List.map_map] at hmade
          exact ⟨_, hes, hmade⟩
        · cases hr
  · have hjob : ∀ out, ¬ Outputs source (s.options options.serviceName) w out :=
      hs.symm ▸ not_exists.1 hout
    obtain ⟨f, hplan⟩ := exists_outcome_plan_error s ⟨source, options.serviceName, folder⟩ hjob
    rw [outcome_bind, hplan] at hmake
    cases hmake
    exact ⟨[], .refl hproper', .noOutput (not_exists.1 hout)⟩

end TypedClients.Run
