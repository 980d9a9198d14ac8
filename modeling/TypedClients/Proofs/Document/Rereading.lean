import TypedClients.Proofs.Files.Beside

/-!
# Reading documents beside the work of others

A document is read as before in surroundings where others have written files, if none of these
files is the document, and folders made by others cannot lead its path elsewhere. What comes
from the network does not depend on files at all, and standard input gives the same unless
others have read it.

* `outcome_hasFile_of_fresh`: a document that was not there is not found later.
* `outcome_fetch_fst`: reading gives the same, whether it is a document or a failure.
-/

namespace TypedClients

namespace Files

variable {v w : Workspace} {p : Path} {front rest : List String} {holder : Place} {name : String}

/-- A step that gives the same in two surroundings, and leaves both as they are. -/
def Session.Agree {α : Type} (x : Session α) (v w : Workspace) : Prop :=
  ∃ r, x.outcome v = (r, v) ∧ x.outcome w = (r, w)

theorem Session.Agree.bind {α β : Type} {x : Session α} {f : α → Session β} (hx : x.Agree v w)
    (hf : ∀ a, x.outcome v = (.ok a, v) → (f a).Agree v w) : (x >>= f).Agree v w := by
  obtain ⟨r, hv, hw⟩ := hx
  cases r with
  | error e => exact ⟨.error e, by rw [outcome_bind, hv], by rw [outcome_bind, hw]⟩
  | ok a =>
    obtain ⟨r, hv', hw'⟩ := hf a hv
    exact ⟨r, by rw [outcome_bind, hv]; exact hv', by rw [outcome_bind, hw]; exact hw'⟩

theorem Session.Agree.refusing {α : Type} {x : Session α} {words : SystemFailure → Cause}
    (h : x.Agree v w) : (refusing words x).Agree v w := by
  obtain ⟨r, hv, hw⟩ := h
  have hattempt : (attempt x).Agree v w :=
    ⟨.ok r, by rw [outcome_attempt, hv], by rw [outcome_attempt, hw]⟩
  refine hattempt.bind fun r _ => ?_
  split
  · exact ⟨_, rfl, rfl⟩
  · exact ⟨_, rfl, rfl⟩
  · exact ⟨_, rfl, rfl⟩

/-- A step that asks for the surroundings, and asks for nothing that differs. -/
theorem Session.agree_of_surroundings {α : Type} {f : Workspace → Session α} (hf : f w = f v)
    (h : (f v).Agree v w) : (surroundings >>= f).Agree v w := by
  obtain ⟨r, hv, hw⟩ := h
  refine ⟨r, (outcome_bind _ _ _).trans hv, (outcome_bind _ _ _).trans ?_⟩
  change outcome (f w) w = (r, w)
  rw [hf]
  exact hw

/-- Two steps give the same in two surroundings if the first does, and the second where it
leaves them. -/
theorem Session.outcome_bind_fst {α β : Type} {x : Session α} {f : α → Session β}
    (hx : (outcome x w).1 = (outcome x v).1)
    (hf : ∀ a, (outcome (f a) (outcome x w).2).1 = (outcome (f a) (outcome x v).2).1) :
    (outcome (x >>= f) w).1 = (outcome (x >>= f) v).1 := by
  rw [outcome_bind, outcome_bind]
  generalize outcome x v = q at hx hf
  generalize outcome x w = q' at hx hf
  obtain ⟨r, v'⟩ := q
  obtain ⟨r', w'⟩ := q'
  obtain rfl : r' = r := hx
  cases r' with
  | error e => rfl
  | ok a => exact hf a

/-- What a path means is as in other surroundings, or a folder where nothing was. -/
def Unwritten (v w : Workspace) (p : Path) : Prop :=
  w.tree.get? (v.place p) = v.tree.get? (v.place p) ∨
    v.tree.get? (v.place p) = none ∧ w.tree.get? (v.place p) = some .folder

/-- Names that can be behind a folder are never too long on the way. -/
theorem Tree.walk_ne_nameTooLong {t : Tree} {here : Place} {names : List String} {mayBeNew : Bool}
    {linked : Place → List String → Except SystemProblem Place}
    (hnames : ∀ n, n ∈ names → IsOrdinary n)
    (hlinks : ∀ q target, here <+: q → q ≠ here → q <+: here ++ names →
      t.get? q ≠ some (.link target)) :
    t.walk mayBeNew linked here names ≠ .error .nameTooLong := by
  induction names generalizing here with
  | nil =>
    intro heq
    cases heq
  | cons name names ih =>
    have hnext : here ++ name :: names = here ++ [name] ++ names := List.append_cons _ _ _
    have hrest : t.walk mayBeNew linked (here ++ [name]) names ≠ .error .nameTooLong := by
      refine ih (fun n hn => hnames n (List.mem_cons_of_mem _ hn)) fun q target hq hne hway => ?_
      refine hlinks q target ((List.prefix_append _ _).trans hq) (fun heq => ?_) (hnext ▸ hway)
      rw [heq] at hq
      exact absurd hq.length_le (by simp)
    rw [walk]
    split
    next hhere =>
      rw [if_neg (hnames _ List.mem_cons_self).1,
        if_neg (Nat.not_lt.2 (hnames _ List.mem_cons_self).2)]
      split
      next target hget =>
        refine absurd hget (hlinks _ target (List.prefix_append _ _) (by simp) ?_)
        rw [hnext]
        exact List.prefix_append _ _
      next => exact hrest
      next =>
        split
        · exact fun heq => by cases heq
        · exact fun heq => by cases heq
    next => exact fun heq => by cases heq
    next => exact fun heq => by cases heq

namespace Session

theorem outcome_hasFile (p : Path) (w : Workspace) :
    (hasFile p).outcome w =
      (((at? p).outcome w).1.map fun e => match e with | some (.file _) => true | _ => false,
        w) := by
  refine (outcome_bind _ _ _).trans ?_
  rw [(reads_at? p).outcome w]
  cases ((at? p).outcome w).1 with
  | error f => rfl
  | ok e =>
    cases e with
    | none => rfl
    | some e =>
      cases e with
      | _ => rfl

/-- What a path to something new leads to later is no file, unless one is written there. -/
theorem outcome_hasFile_of_fresh (h : Fresh v p front holder name rest) (hv : v.tree.Proper)
    (hw : Grown v w) (hsame : Unwritten v w p) : (hasFile p).outcome w = (.ok false, w) := by
  have hnot : w.tree.get? (v.place p) = none ∨ w.tree.get? (v.place p) = some .folder := by
    rcases hsame with heq | ⟨-, hfolder⟩
    · refine Or.inl (heq.trans (h.none_below hv ?_))
      rw [h.place_eq hv]
      exact ⟨rest, by simp⟩
    · exact Or.inr hfolder
  rw [outcome_hasFile, outcome_at?]
  split
  · rfl
  · cases hlocate : w.tree.locate false w.folder p with
    | ok place =>
      obtain rfl : v.place p = place := (hw.place p).symm.trans (Tree.locate_eq_resolve hlocate)
      rcases hnot with hnone | hfolder
      · simp only [hnone]
        rfl
      · simp only [hfolder]
        rfl
    | error problem =>
      cases problem with
      | nameTooLong =>
        obtain ⟨linked, hlinked⟩ := Tree.exists_locate_append (h.leads.grown hw).located
        have hwalk := hlinked false (name :: rest)
        rw [← h.parts] at hwalk
        refine absurd (hwalk.symm.trans hlocate) (Tree.walk_ne_nameTooLong h.names ?_)
        intro q target hq hne hway
        rw [← h.place_eq hv] at hway
        rw [Ne, hw.grows.link, h.none_on_way hv hq hne hway]
        exact fun heq => by cases heq
      | _ => rfl

/-- A file that is not written to is found as before. -/
theorem outcome_at?_of_file {bytes : List UInt8} (hw : Grown v w) (hsame : Unwritten v w p)
    (hfile : (at? p).outcome v = (.ok (some (.file bytes)), v)) :
    (at? p).outcome w = (.ok (some (.file bytes)), w) := by
  rw [outcome_at?] at hfile ⊢
  split at hfile
  · cases hfile
  next hask =>
    rw [if_neg hask]
    split at hfile
    next place hlocate =>
      obtain rfl : v.place p = place := Tree.locate_eq_resolve hlocate
      have hget : v.tree.get? (v.place p) = some (.file bytes) :=
        Except.ok.inj (Prod.mk.inj hfile).1
      have hget' : w.tree.get? (v.place p) = some (.file bytes) := by
        rcases hsame with heq | ⟨hnone, -⟩
        · exact heq.trans hget
        · cases hnone.symm.trans hget
      have hne : v.tree.locate false v.folder p ≠ .error .missing := by
        rw [hlocate]
        exact fun heq => by cases heq
      rw [hw.locate_eq hne, hlocate]
      simp only [hget']
    · cases hfile
    · cases hfile

theorem agree_hasFile (hv : v.tree.Proper) (hw : Grown v w)
    (hstraight : Straight v p ∨ w.tree.Grows v.tree) (hsame : Unwritten v w p) :
    (hasFile p).Agree v w := by
  by_cases hne : v.tree.locate false v.folder p = .error .missing
  · rcases hstraight with hstraight | hback
    · obtain ⟨front, holder, name, rest, h⟩ := hstraight hne
      exact ⟨_, outcome_hasFile_of_fresh h hv (.refl hv) (Or.inl rfl),
        outcome_hasFile_of_fresh h hv hw hsame⟩
    · have hne' : w.tree.locate false w.folder p = .error .missing := by
        by_contra hfound
        rw [hw.folder] at hfound
        exact hfound ((hback.locate_eq hfound).symm.trans hne)
      refine ⟨.ok false, ?_, ?_⟩
      · rw [outcome_hasFile, outcome_at?, hne]
        split
        · rfl
        · rfl
      · rw [outcome_hasFile, outcome_at?, hne']
        split
        · rfl
        · rfl
  · refine ⟨_, outcome_hasFile p v, ?_⟩
    rw [outcome_hasFile, outcome_at?, outcome_at?, hw.locate_eq hne]
    split
    · rfl
    · split
      next place hlocate =>
        obtain rfl : v.place p = place := Tree.locate_eq_resolve hlocate
        rcases hsame with heq | ⟨hnone, hfolder⟩
        · rw [heq]
        · rw [hnone, hfolder]
          rfl
      next => rfl
      next => rfl

theorem outcome_readText_of_file {bytes : List UInt8}
    (h : (at? p).outcome w = (.ok (some (.file bytes)), w)) :
    (readText p).outcome w =
      (match String.fromUTF8? ⟨bytes.toArray⟩ with
        | some s => .ok (String.ofList (Text.normaliseLineEnds s.toList))
        | none => .error (.mishap .notUnicode), w) := by
  rw [outcome_at?] at h
  split at h
  · cases h
  next hask =>
    rw [Option.not_isSome_iff_eq_none] at hask
    split at h
    next place hlocate =>
      have hget : w.tree.get? place = some (.file bytes) := Except.ok.inj (Prod.mk.inj h).1
      have hsurroundings : surroundings.outcome w = (.ok w, w) := rfl
      rw [readText, outcome_bind, requireAskable, hask, outcome_pure]
      simp only [outcome_bind, hsurroundings, hlocate, hget]
      cases String.fromUTF8? ⟨bytes.toArray⟩ with
      | some s => rfl
      | none => rfl
    · cases h
    · cases h

theorem agree_readText (hw : Grown v w) (hsame : Unwritten v w p)
    (hfile : (hasFile p).outcome v = (.ok true, v)) : (readText p).Agree v w := by
  have hbytes : ∃ bytes, (at? p).outcome v = (.ok (some (.file bytes)), v) := by
    rw [outcome_hasFile] at hfile
    rw [(reads_at? p).outcome v]
    cases hat : ((at? p).outcome v).1 with
    | error f =>
      rw [hat] at hfile
      cases hfile
    | ok e =>
      rw [hat] at hfile
      cases e with
      | none => cases hfile
      | some e =>
        cases e with
        | file bytes => exact ⟨bytes, rfl⟩
        | folder => cases hfile
        | link target => cases hfile
  obtain ⟨bytes, hbytes⟩ := hbytes
  exact ⟨_, outcome_readText_of_file hbytes,
    outcome_readText_of_file (outcome_at?_of_file hw hsame hbytes)⟩

end Session

end Files

namespace Document

open Files (Path Workspace Grown Straight Unwritten)
open Files.Session

variable {v w : Workspace} {location : String}

/-- A document in a file is read as before, unless others have written the file. -/
theorem agree_ofFile (hv : v.tree.Proper) (hw : Grown v w)
    (hstraight : Straight v (Path.ofString location) ∨ w.tree.Grows v.tree)
    (hsame : Unwritten v w (Path.ofString location)) : (ofFile location).Agree v w := by
  refine (agree_hasFile hv hw hstraight hsame).bind fun there hthere => ?_
  cases there with
  | false => exact ⟨_, rfl, rfl⟩
  | true =>
    refine (agree_readText hw hsame hthere).refusing.bind fun text _ => ?_
    change Agree (if _ then _ else _) v w
    split
    · exact ⟨_, rfl, rfl⟩
    · exact ⟨_, rfl, rfl⟩

/-- What is on standard input is read as before, unless others have read it. -/
theorem outcome_ofInput_fst (h : w.input = v.input) :
    (ofInput.outcome w).1 = (ofInput.outcome v).1 := by
  have htake : ∀ u : Workspace, takeInput.outcome u = (.ok u.input, { u with input := "" }) :=
    fun _ => rfl
  rw [ofInput, outcome_bind, outcome_bind, htake, htake, h]
  simp only
  split
  · rfl
  · rfl

theorem agree_ofRemote (hw : Grown v w) (url : String) : (ofRemote url).Agree v w := by
  refine Agree.bind ⟨_, rfl, rfl⟩ fun _ _ => agree_of_surroundings (by rw [hw.rest]) ?_
  split
  · exact ⟨_, rfl, rfl⟩
  · change Agree (if _ then _ else _) v w
    split
    · exact ⟨_, rfl, rfl⟩
    · exact ⟨_, rfl, rfl⟩

theorem grown_afterFetch (hw : Grown v w) (location : String) :
    Grown v (afterFetch location w) := by
  unfold Document.afterFetch
  split
  · refine ⟨?_, hw.proper, hw.grows⟩
    rw [hw.rest]
  · exact hw

/-- A document is read as before. -/
theorem outcome_fetch_fst (hv : v.tree.Proper) (hw : Grown v w)
    (hinput : location = standardInput → w.input = v.input)
    (hfile : location ≠ standardInput → isRemote location = false →
      (Straight v (Path.ofString location) ∨ w.tree.Grows v.tree) ∧
        Unwritten v w (Path.ofString location)) :
    ((fetch location).outcome w).1 = ((fetch location).outcome v).1 := by
  unfold fetch
  split
  next hlocation => exact outcome_ofInput_fst (hinput hlocation)
  next hlocation =>
    have hagree : Agree (if isRemote location then ofRemote location else ofFile location) v w := by
      split
      next => exact agree_ofRemote hw location
      next hremote =>
        obtain ⟨hstraight, hsame⟩ := hfile hlocation (Bool.not_eq_true _ ▸ hremote)
        exact agree_ofFile hv hw hstraight hsame
    obtain ⟨r, hv', hw'⟩ := hagree
    rw [hv', hw']

end Document

end TypedClients
