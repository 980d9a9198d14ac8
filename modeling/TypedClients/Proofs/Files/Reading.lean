import TypedClients.Run.Sources

/-!
# Steps that only look

Most steps of the tool read their surroundings and change nothing, whether they fail or not.
`Reads` says so of a step. What is made of such steps is one again, so that documents are
found and read without a trace, but that standard input can be read only once. Only the
clearing away of earlier output and the writing of files are left out here.

* `Document.outcome_fetch_snd`: what reading a document leaves.
* `Run.reads_collect`: listing the documents of all sources.
-/

namespace TypedClients

/-- The place that a path means in some surroundings. -/
def Files.Workspace.place (w : Files.Workspace) (p : Files.Path) : Files.Place :=
  w.tree.resolve w.folder p

namespace Files.Session

variable {α β : Type} {x : Session α} {f : α → Session β} {w w' : Workspace} {r : Except Failure β}

/-- Either the first of two steps fails, or the second goes on where the first left the
surroundings. -/
theorem outcome_bind_cases (h : (x >>= f).outcome w = (r, w')) :
    (∃ e, x.outcome w = (.error e, w') ∧ r = .error e) ∨
      ∃ a v, x.outcome w = (.ok a, v) ∧ (f a).outcome v = (r, w') := by
  rw [outcome_bind] at h
  revert h
  generalize x.outcome w = q
  obtain ⟨e | a, v⟩ := q
  · intro h
    cases h
    exact Or.inl ⟨e, rfl, rfl⟩
  · exact fun h => Or.inr ⟨a, v, rfl, h⟩

/-- A step that leaves its surroundings as they are. -/
def Reads (x : Session α) : Prop := ∀ w, (x.outcome w).2 = w

theorem Reads.outcome (hx : Reads x) (w : Workspace) : x.outcome w = ((x.outcome w).1, w) :=
  Prod.ext rfl (hx w)

theorem Reads.bind_cases (hx : Reads x) (h : (x >>= f).outcome w = (r, w')) :
    (∃ e, x.outcome w = (.error e, w) ∧ r = .error e ∧ w' = w) ∨
      ∃ a, x.outcome w = (.ok a, w) ∧ (f a).outcome w = (r, w') := by
  have hw := hx w
  rcases outcome_bind_cases h with ⟨e, hfail, rfl⟩ | ⟨a, v, hrun, hrest⟩
  · rw [hfail] at hw
    subst hw
    exact Or.inl ⟨e, hfail, rfl, rfl⟩
  · rw [hrun] at hw
    subst hw
    exact Or.inr ⟨a, hrun, hrest⟩

theorem Reads.bind (hx : Reads x) (hf : ∀ a, Reads (f a)) : Reads (x >>= f) := by
  intro w
  generalize h : (x >>= f).outcome w = q
  obtain ⟨r, w'⟩ := q
  rcases hx.bind_cases h with ⟨e, -, -, rfl⟩ | ⟨a, -, hrest⟩
  · rfl
  · have hw := hf a w
    rw [hrest] at hw
    exact hw

/-- What a step leaves is not changed by steps after it that only look. -/
theorem outcome_bind_snd (x : Session α) (hf : ∀ a, Reads (f a)) (w : Workspace) :
    ((x >>= f).outcome w).2 = (x.outcome w).2 := by
  rw [outcome_bind]
  generalize x.outcome w = q
  obtain ⟨e | a, v⟩ := q
  · rfl
  · exact hf a v

theorem Reads.attempt (h : Reads x) : Reads x.attempt := h

theorem reads_pure (a : α) : Reads (pure a : Session α) := fun _ => rfl

theorem reads_throw (e : Failure) : Reads (throw e : Session α) := fun _ => rfl

theorem outcome_checked (x : Checked α) (w : Workspace) :
    (checked x).outcome w = (x.outcome, w) := rfl

theorem reads_checked (x : Checked α) : Reads (checked x) := fun w => by rw [outcome_checked]

theorem reads_surroundings : Reads surroundings := fun _ => rfl

/-- Going on unless something is refused. -/
theorem Reads.unless {c : Prop} [Decidable c] {cause : Cause} {g : Unit → Session α}
    (h : Reads (g ())) : Reads (if c then refuse cause >>= g else g ()) := by
  split
  · exact fun _ => rfl
  · exact h

/-! ## Looking at files -/

theorem reads_requireAskable (p : Path) : Reads (requireAskable p) := by
  unfold requireAskable
  split
  · exact reads_throw _
  · exact reads_pure _

theorem reads_at? (p : Path) : Reads (at? p) := by
  refine reads_surroundings.bind fun w => ?_
  split
  · exact reads_pure _
  · split
    · exact reads_pure _
    · exact reads_throw _
    · exact reads_pure _

theorem reads_hasFolder (p : Path) : Reads (hasFolder p) := (reads_at? p).bind fun _ => reads_pure _

theorem reads_hasFile (p : Path) : Reads (hasFile p) := by
  refine (reads_at? p).bind fun e => ?_
  split
  · exact reads_pure _
  · exact reads_pure _

theorem reads_readText (p : Path) : Reads (readText p) := by
  refine (reads_requireAskable p).bind fun _ => reads_surroundings.bind fun w => ?_
  split
  · exact reads_throw _
  · split
    · split
      · exact reads_pure _
      · exact reads_throw _
    · exact reads_throw _
    · exact reads_throw _

theorem Reads.refusing {words : SystemFailure → Cause} (h : Reads x) :
    Reads (refusing words x) := by
  refine h.attempt.bind fun r => ?_
  split
  · exact reads_pure _
  · exact reads_throw _
  · exact reads_throw _

theorem reads_contents (p : Path) : Reads (contents p) := by
  refine reads_surroundings.bind fun w => ?_
  split
  · exact reads_throw _
  · exact reads_pure _

theorem reads_resolve (p : Path) : Reads (resolve p) := by
  refine (reads_requireAskable p).bind fun _ => reads_surroundings.bind fun w => ?_
  dsimp only
  split
  · exact reads_throw _
  · exact reads_pure _

theorem eq_place_of_resolve {p : Path} {place : Place}
    (h : (resolve p).outcome w = (.ok place, w')) :
    place = w.place p := by
  rcases (reads_requireAskable p).bind_cases h with ⟨e, -, he, -⟩ | ⟨_, -, h⟩
  · cases he
  rcases reads_surroundings.bind_cases h with ⟨e, -, he, -⟩ | ⟨v, hv, h⟩
  · cases he
  cases hv
  dsimp only at h
  split at h
  · cases h
  · cases h
    rfl

theorem reads_environment? (name : String) : Reads (environment? name) :=
  reads_surroundings.bind fun _ => reads_pure _

theorem reads_home : Reads home := by
  refine (reads_environment? _).bind fun s => reads_surroundings.bind fun w => ?_
  split
  · split
    · exact reads_throw _
    · exact reads_pure _
  · exact reads_throw _

theorem reads_workFolder : Reads workFolder := reads_surroundings.bind fun _ => reads_pure _

theorem reads_filterM {keep : α → Session Bool} (hkeep : ∀ a, Reads (keep a)) (as : List α) :
    Reads (as.filterM keep) := by
  have haux : ∀ (as acc : List α), Reads (as.filterAuxM keep acc) := by
    intro as
    induction as with
    | nil => exact fun acc => reads_pure acc
    | cons a rest ih => exact fun acc => (hkeep a).bind fun b => ih _
  exact (haux as []).bind fun _ => reads_pure _

end Files.Session

/-! ## Reading documents -/

namespace Document

open Files (Workspace)
open Files.Session

/-- What is there once a document has been fetched: what was on standard input has been read. -/
def afterFetch (location : String) (w : Workspace) : Workspace :=
  if location = standardInput then { w with input := "" } else w

theorem reads_ofRemote (url : String) : Reads (ofRemote url) := by
  refine (reads_checked _).bind fun _ => reads_surroundings.bind fun w => ?_
  split
  · exact reads_throw _
  · exact Reads.unless (reads_checked _)

theorem reads_ofFile (location : String) : Reads (ofFile location) := by
  refine (reads_hasFile _).bind fun there => Reads.unless ?_
  exact (reads_readText _).refusing.bind fun text => Reads.unless (reads_checked _)

theorem outcome_fetch_snd (location : String) (w : Workspace) :
    ((fetch location).outcome w).2 = afterFetch location w := by
  unfold fetch afterFetch
  split
  · exact outcome_bind_snd takeInput (fun _ => Reads.unless (reads_checked _)) w
  · split
    · exact reads_ofRemote location w
    · exact reads_ofFile location w

theorem afterFetch_withInput (location : String) (w : Workspace) (input : String) :
    { afterFetch location w with input := input } = { w with input := input } := by
  unfold afterFetch
  split
  · rfl
  · rfl

@[simp]
theorem afterFetch_tree (location : String) (w : Workspace) :
    (afterFetch location w).tree = w.tree := by
  unfold afterFetch
  split
  · rfl
  · rfl

@[simp]
theorem afterFetch_nestingLimit (location : String) (w : Workspace) :
    (afterFetch location w).nestingLimit = w.nestingLimit := by
  unfold afterFetch
  split
  · rfl
  · rfl

theorem reads_filesIn (location : String) : Reads (filesIn location) := by
  refine (reads_hasFolder _).bind fun there => Reads.unless ?_
  refine (reads_contents _).bind fun ps => reads_filterM (fun p => ?_) ps
  exact (reads_hasFile p).bind fun _ => reads_pure _

end Document

/-! ## What a run does before it writes anything -/

namespace Run

open Files.Session

theorem reads_generate (document : Document) (options : Options) :
    Reads (generate document options) :=
  reads_surroundings.bind fun _ => reads_checked _

theorem reads_expand (source : Source) : Reads (expand source) := by
  refine (reads_hasFolder _).bind fun there => ?_
  split
  · exact (Document.reads_filesIn _).bind fun _ => reads_pure _
  · exact reads_pure _

theorem reads_jobsOf (s : Settings) (source : Source) : Reads (jobsOf s source) := by
  refine (reads_expand source).attempt.bind fun r => ?_
  split
  · split
    · exact reads_pure _
    · exact reads_throw _
  · split
    · exact (reads_checked _).bind fun _ => reads_pure _
    · exact reads_pure _

/-- Listing the documents of all sources changes nothing. -/
theorem reads_collect (s : Settings) (sources : List Source) : Reads (collect s sources) := by
  induction sources with
  | nil => exact reads_pure _
  | cons source rest ih =>
    refine (reads_jobsOf s source).bind fun first => ih.bind fun others => ?_
    obtain ⟨jobs, results⟩ := others
    cases first with
    | inl js => exact reads_pure _
    | inr r => exact reads_pure _

end Run

end TypedClients
