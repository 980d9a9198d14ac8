import TypedClients.Files.Tree

/-!
# What became different in a tree

Two trees, one from before some work and one from after it, differ in what is gone, in folders
that are new and in files that are new or have other content. No step of the tool makes a
link, so links differ only where they are gone.

* `mem_written`, `mem_folders`, `mem_removed`: each list names exactly the places with that
  difference.

Mirrors no function: the changes of a session are carried out at its end.
-/

namespace TypedClients.Files

/-- The differences between two trees. -/
structure Changes where
  removed : List Place
  folders : List Place
  written : List (Place × List UInt8)
  deriving DecidableEq, Repr

namespace Tree

/-- The places where a tree has something besides the root. -/
def places (t : Tree) : List Place := (t.entries.map (·.1)).filter (· ≠ [])

/-- The content of the file at a place. -/
def content? (t : Tree) (place : Place) : Option (List UInt8) :=
  match t.get? place with
  | some (.file bytes) => some bytes
  | _ => none

/-- How a tree became another one. -/
def changes (before after : Tree) : Changes where
  removed := before.places.filter fun place => (after.get? place).isNone
  folders := after.places.filter fun place =>
    after.get? place = some .folder ∧ before.get? place ≠ some .folder
  written := after.places.filterMap fun place =>
    match after.content? place with
    | some bytes => if before.content? place = some bytes then none else some (place, bytes)
    | none => none

theorem isSome_lookup_iff (es : List (Place × Entry)) (place : Place) :
    (es.lookup place).isSome ↔ place ∈ es.map (·.1) := by
  induction es with
  | nil => simp
  | cons e es ih =>
    obtain ⟨q, f⟩ := e
    rw [List.lookup_cons]
    by_cases hq : place = q
    · simp [hq]
    · have hb : (place == q) = false := by simpa using hq
      simp [hb, ih, hq]

theorem mem_places (t : Tree) {place : Place} :
    place ∈ t.places ↔ place ≠ [] ∧ (t.get? place).isSome := by
  simp only [places, List.mem_filter, decide_eq_true_eq, ← isSome_lookup_iff, get?]
  by_cases h : place = [] <;> simp [h]

theorem content?_eq_some (t : Tree) {place : Place} {bytes : List UInt8} :
    t.content? place = some bytes ↔ t.get? place = some (.file bytes) := by
  unfold content?
  split <;> simp_all

theorem mem_written (before after : Tree) {place : Place} {bytes : List UInt8} :
    (place, bytes) ∈ (before.changes after).written ↔
      after.get? place = some (.file bytes) ∧ before.get? place ≠ some (.file bytes) := by
  simp only [changes, List.mem_filterMap, mem_places]
  constructor
  · rintro ⟨q, _, hq⟩
    split at hq
    · split at hq
      · simp at hq
      · simp only [Option.some.injEq, Prod.mk.injEq] at hq
        obtain ⟨rfl, rfl⟩ := hq
        simp_all [content?_eq_some]
    · simp at hq
  · rintro ⟨ha, hb⟩
    refine ⟨place, ⟨?_, by simp [ha]⟩, ?_⟩
    · rintro rfl
      simp [get?] at ha
    · simp [(content?_eq_some after).2 ha, content?_eq_some, hb]

theorem mem_folders (before after : Tree) {place : Place} :
    place ∈ (before.changes after).folders ↔
      after.get? place = some .folder ∧ before.get? place ≠ some .folder := by
  simp only [changes, List.mem_filter, mem_places, decide_eq_true_eq]
  constructor
  · exact fun h => h.2
  · rintro ⟨ha, hb⟩
    refine ⟨⟨?_, by simp [ha]⟩, ha, hb⟩
    rintro rfl
    simp [get?] at hb

theorem mem_removed (before after : Tree) {place : Place} :
    place ∈ (before.changes after).removed ↔
      (before.get? place).isSome ∧ after.get? place = none := by
  simp only [changes, List.mem_filter, mem_places, Option.isNone_iff_eq_none]
  constructor
  · exact fun h => ⟨h.1.2, h.2⟩
  · rintro ⟨hb, ha⟩
    refine ⟨⟨?_, hb⟩, ha⟩
    rintro rfl
    simp [get?] at ha

end Tree

end TypedClients.Files
