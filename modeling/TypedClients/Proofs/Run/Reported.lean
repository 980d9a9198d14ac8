import TypedClients.Proofs.Run.Making

/-!
# Files that are written and files that are reported

The list of written files is given by the loop that writes them, when it has come to its end.
If a file cannot be written, the loop is left and the list with it: the result is a failure
without files. But the files before that one have been written by then, and stay.

* `reports_of_writes`: what the result for a document says of the files that were written for it.
* `process_reports`: a result lists the files that were written exactly if it is a success or
  nothing was written; a failure leaves files behind exactly if the first one could be begun.
* `process_leaves_unlisted`: a file that was written, and is on no list.
-/

namespace TypedClients.Run

open Files (Path Place Workspace Write Writes)
open Files.Session
open Writing (Begins Starts Stopped filesOf writesOf)

variable {source : String} {folder : Path} {options : Options} {planOnly : Bool} {w w' : Workspace}
  {es : List Write} {r : Except Failure Made}

/-- What the result for a document says of the files that were written. -/
structure Reports (source : String) (folder : Path) (options : Options) (planOnly : Bool)
    (w : Workspace) (result : SourceResult) (es : List Write) (w' : Workspace) : Prop where
  /-- Files were created or replaced at the places of these paths. -/
  there : ∀ e, e ∈ es → ∃ bytes, w'.tree.at? w'.folder e.path = some (.file bytes)
  /-- No other file was. -/
  others : ∀ place, (∀ e, e ∈ es → w.place e.path ≠ place) →
    w'.tree.content? place = w.tree.content? place
  /-- They are files of the output in their order, or those before the first one that failed. -/
  written : planOnly = true ∧ es = [] ∨ (∀ out, ¬ Outputs source options w out) ∧ es = [] ∨
    ∃ out, Outputs source options w out ∧ (result.succeeded = true ∧ es = writesOf folder out ∨
      result.succeeded = false ∧ Stopped (writesOf folder out) es)
  /-- A failure has no list. -/
  failed : result.succeeded = false → result.made.written = []
  /-- The list is the one of the written files exactly if this is a success, or no file was
  written. -/
  listed : (∀ text, text ∈ result.made.written ↔ text ∈ es.map (·.path.text)) ↔
    result.succeeded = true ∨ es = []
  /-- A failure leaves files behind exactly if the first one of an output could be begun. -/
  begun : result.succeeded = false → (es ≠ [] ↔ planOnly = false ∧
    ∃ out, Outputs source options w out ∧
    Starts folder (filesOf out) (Document.afterFetch source w))

theorem place_afterFetch (source : String) (w : Workspace) (p : Path) :
    (Document.afterFetch source w).place p = w.place p := by
  unfold Document.afterFetch
  split
  · rfl
  · rfl

theorem reports_of_writes (hes : Writes (Document.afterFetch source w) es w')
    (h : WritesFor source folder options w planOnly r es) :
    Reports source folder options planOnly w ⟨source, r⟩ es w' := by
  have hthere : ∀ e, e ∈ es → ∃ bytes, w'.tree.at? w'.folder e.path = some (.file bytes) := by
    intro e he
    obtain ⟨bytes, hlast⟩ := Option.isSome_iff_exists.1 (Files.isSome_lastAt_iff.2 ⟨e, he, rfl⟩)
    exact ⟨bytes, (hes.at? he bytes).2 hlast⟩
  have hothers : ∀ place, (∀ e, e ∈ es → w.place e.path ≠ place) →
      w'.tree.content? place = w.tree.content? place := by
    intro place hnot
    rw [← Document.afterFetch_tree source w]
    exact hes.content?_of_not_mem fun e he => place_afterFetch source w e.path ▸ hnot e he
  have hempty : (∀ text : String, text ∈ [] ↔ text ∈ es.map (·.path.text)) ↔ es = [] := by
    rw [← List.map_eq_nil_iff (f := fun e : Write => e.path.text), List.eq_nil_iff_forall_not_mem]
    simp only [List.not_mem_nil, false_iff]
  cases h with
  | planned hout =>
    exact ⟨hthere, hothers, Or.inl ⟨rfl, rfl⟩, fun hfailed => Bool.noConfusion hfailed,
      iff_of_true (fun _ => Iff.rfl) (Or.inl rfl), fun hfailed => Bool.noConfusion hfailed⟩
  | made hout =>
    exact ⟨hthere, hothers, Or.inr (Or.inr ⟨_, hout, Or.inl ⟨rfl, rfl⟩⟩),
      fun hfailed => Bool.noConfusion hfailed, iff_of_true (fun _ => Iff.rfl) (Or.inl rfl),
      fun hfailed => Bool.noConfusion hfailed⟩
  | noOutput hnone =>
    refine ⟨hthere, hothers, Or.inr (Or.inl ⟨hnone, rfl⟩), fun _ => rfl,
      iff_of_true (fun _ => Iff.rfl) (Or.inr rfl), fun _ => iff_of_false (fun h => h rfl) ?_⟩
    rintro ⟨-, out, hout, -⟩
    exact hnone out hout
  | @stopped f out es hout hstopped hstarts =>
    refine ⟨hthere, hothers, Or.inr (Or.inr ⟨out, hout, Or.inr ⟨rfl, hstopped⟩⟩), fun _ => rfl, ?_,
      fun _ => hstarts.trans ⟨fun h => ⟨rfl, out, hout, h⟩, ?_⟩⟩
    · exact hempty.trans ⟨Or.inr, fun h => h.resolve_left Bool.false_ne_true⟩
    · rintro ⟨-, out', hout', h⟩
      rw [hout.unique hout']
      exact h

/-- The result for a document lists the files that were written for it exactly if it is a
success, or no file was written. -/
theorem process_reports (hproper : w.tree.Proper) (source : String) (folder : Path)
    (options : Options) (planOnly : Bool) : ∃ result es w',
      (process source folder options planOnly).outcome w = (.ok result, w') ∧
        Reports source folder options planOnly w result es w' := by
  rw [outcome_process]
  generalize hmake : (make source folder options planOnly).outcome w = q
  obtain ⟨r, w'⟩ := q
  obtain ⟨es, hes, hwrites⟩ := outcome_make_writes hproper hmake
  exact ⟨_, es, w', rfl, reports_of_writes hes hwrites⟩

/-- A document with one operation. -/
def clinicText : String :=
  "\x7b\"swagger\": \"2.0\", \"info\": \x7b\"title\": \"Clinic\"\x7d, " ++
    "\"paths\": \x7b\"/visits/notes\": \x7b\"get\": \x7b\x7d\x7d\x7d\x7d"

/-- A working folder with this document, and with a folder in the place of its client. -/
def blockedClient : Workspace where
  tree := ⟨[(["work"], .folder), (["work", "spec.json"], .file clinicText.toUTF8.toList),
    (["work", "out"], .folder), (["work", "out", "ClinicService"], .folder),
    (["work", "out", "ClinicService", "Visits"], .folder),
    (["work", "out", "ClinicService", "Visits", "ClinicServiceVisitsClient.ts"], .folder)]⟩
  folder := ["work"]
  environment := []
  userHome := some "/root"
  system := "Linux"
  input := ""
  replies := []
  refusals := []
  nestingLimit := 300

theorem proper_blockedClient : blockedClient.tree.Proper :=
  Files.Tree.proper_of_entries (by decide +kernel)

theorem process_reports_blockedClient : blockedClient.tree.Proper ∧ ∃ result es w',
    (process "spec.json" (Path.ofString "out") Options.default false).outcome blockedClient =
    (.ok result, w') ∧
      Reports "spec.json" (Path.ofString "out") Options.default false blockedClient result es w' :=
  ⟨proper_blockedClient, process_reports proper_blockedClient _ _ _ _⟩

theorem exists_outputs_blockedClient :
    ∃ out, Outputs "spec.json" Options.default blockedClient out ∧
    (filesOf out).map Prod.fst =
      ["ClinicService/Visits/types.ts", "ClinicService/Visits/ClinicServiceVisitsClient.ts"] := by
  have hrun : (((Document.fetch "spec.json").outcome blockedClient).1.toOption.bind fun root =>
      (Document.load root).outcome.toOption.bind fun document =>
        (document.generate blockedClient.nestingLimit Options.default).outcome.toOption.map
          fun out => (filesOf out).map Prod.fst) =
      some ["ClinicService/Visits/types.ts",
        "ClinicService/Visits/ClinicServiceVisitsClient.ts"] := by
    decide +kernel
  obtain ⟨root, hroot, hrun⟩ := Option.bind_eq_some_iff.1 hrun
  obtain ⟨document, hdocument, hrun⟩ := Option.bind_eq_some_iff.1 hrun
  obtain ⟨out, hout, hfiles⟩ := Option.map_eq_some_iff.1 hrun
  exact ⟨out, ⟨root, document, Failure.eq_ok_of_toOption hroot, Failure.eq_ok_of_toOption hdocument,
    Failure.eq_ok_of_toOption hout⟩, hfiles⟩

theorem begins_blockedClient : Begins (Path.ofString "out") "ClinicService/Visits/types.ts"
    (Document.afterFetch "spec.json" blockedClient) := by
  have hfolders : ((makeFolders
    ((Path.ofString "out").below "ClinicService/Visits/types.ts").parent).outcome
      (Document.afterFetch "spec.json" blockedClient)).1.toOption = some () := by decide +kernel
  have htakes : ((writeBytes ((Path.ofString "out").below "ClinicService/Visits/types.ts")
    []).outcome
      ((makeFolders ((Path.ofString "out").below "ClinicService/Visits/types.ts").parent).outcome
        (Document.afterFetch "spec.json" blockedClient)).2).1.toOption =
        some () := by decide +kernel
  exact ⟨Failure.eq_ok_of_toOption hfolders, Failure.eq_ok_of_toOption htakes⟩

/-- The types are written, and then the client cannot be: the result is a failure without
files, though there is one that was not there before. -/
theorem process_leaves_unlisted : ∃ result w',
    (process "spec.json" (Path.ofString "out") Options.default false).outcome blockedClient =
    (.ok result, w') ∧
      result.succeeded = false ∧ result.made.written = [] ∧
      blockedClient.tree.content? ["work", "out", "ClinicService", "Visits", "types.ts"] = none ∧
      (w'.tree.content? ["work", "out", "ClinicService", "Visits", "types.ts"]).isSome := by
  obtain ⟨out, hout, hfiles⟩ := exists_outputs_blockedClient
  obtain ⟨⟨_, types⟩, more, hsplit, rfl, hmore⟩ := List.map_eq_cons_iff.1 hfiles
  obtain ⟨⟨_, client⟩, rest, rfl, rfl, -⟩ := List.map_eq_cons_iff.1 hmore
  have hplace : ∀ path place, blockedClient.place ((Path.ofString "out").below path) = place →
      (Document.afterFetch "spec.json" blockedClient).place ((Path.ofString "out").below path) =
      place :=
    fun path place h => (place_afterFetch "spec.json" blockedClient _).trans h
  have htypes := hplace "ClinicService/Visits/types.ts"
    ["work", "out", "ClinicService", "Visits", "types.ts"] (by decide +kernel)
  have hclient := hplace "ClinicService/Visits/ClinicServiceVisitsClient.ts"
    ["work", "out", "ClinicService", "Visits", "ClinicServiceVisitsClient.ts"] (by decide +kernel)
  have hwritesOf : writesOf (Path.ofString "out") out =
      ⟨(Path.ofString "out").below "ClinicService/Visits/types.ts", types.toUTF8.toList⟩ ::
        ⟨(Path.ofString "out").below "ClinicService/Visits/ClinicServiceVisitsClient.ts",
          client.toUTF8.toList⟩ :: rest.map (Writing.writeOf (Path.ofString "out")) := by
    rw [writesOf, hsplit]
    rfl
  rw [outcome_process]
  generalize hmake : (make "spec.json" (Path.ofString "out") Options.default false).outcome
    blockedClient = q
  obtain ⟨r, w'⟩ := q
  obtain ⟨es, hes, hwrites⟩ := outcome_make_writes proper_blockedClient hmake
  refine ⟨_, w', rfl, ?_⟩
  cases hwrites with
  | made hsame =>
    -- the client would be where the folder is
    exfalso
    obtain rfl := hout.unique hsame
    have hmem : ⟨(Path.ofString "out").below "ClinicService/Visits/ClinicServiceVisitsClient.ts",
        client.toUTF8.toList⟩ ∈ writesOf (Path.ofString "out") out := by
      rw [hwritesOf]
      exact List.mem_cons_of_mem _ List.mem_cons_self
    have hlast := (Files.isSome_lastAt_iff (w := Document.afterFetch "spec.json" blockedClient)).2
      ⟨_, hmem, hclient⟩
    obtain ⟨bytes, hbytes⟩ := Option.isSome_iff_exists.1 hlast
    have hcontent := hes.content
      ["work", "out", "ClinicService", "Visits", "ClinicServiceVisitsClient.ts"]
    rw [hbytes, Option.some_or, Files.Tree.content?_eq_some] at hcontent
    have hfolder := hes.grows.folder ["work", "out", "ClinicService", "Visits",
      "ClinicServiceVisitsClient.ts"] (by decide)
    cases hcontent.symm.trans hfolder
  | noOutput hnone => exact absurd hout (hnone out)
  | @stopped f _ _ hsame hstopped hstarts =>
    obtain rfl := hout.unique hsame
    have hne : es ≠ [] := hstarts.2 ⟨_, _, hsplit, begins_blockedClient⟩
    obtain ⟨e, he, hpath⟩ := Writing.exists_first_of_stopped (hwritesOf ▸ hstopped) hne
    refine ⟨rfl, rfl, by decide, ?_⟩
    rw [hes.content, Option.isSome_or, Bool.or_eq_true]
    exact Or.inl (Files.isSome_lastAt_iff.2 ⟨e, he, hpath ▸ htypes⟩)

end TypedClients.Run
