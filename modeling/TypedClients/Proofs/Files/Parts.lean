import TypedClients.Files.Path

/-!
# The parts of a path that is put together

Texts that are joined by a slash give a path with the parts of both. Where text is put before
or behind a path without a slash in between, only its first or its last part changes.

* `Path.parts_append_slash`: the parts of joined texts.
* `Path.exists_parts_append`, `Path.exists_parts_prepend`: text behind or before a path.
* `Path.Plain.ofString_text`: the text of a path is read as the path again.
-/

namespace TypedClients

namespace Text

variable {sep : Char} {a b s : List Char}

theorem splitAt_append_cons (sep : Char) (a b : List Char) :
    splitAt sep (a ++ sep :: b) = splitAt sep a ++ splitAt sep b := by
  induction a with
  | nil => simp [splitAt]
  | cons c a ih =>
    rw [List.cons_append, splitAt, splitAt, ih]
    split
    · rfl
    · cases h : splitAt sep a with
      | nil => exact absurd h (splitAt_ne_nil sep a)
      | cons p ps => rfl

theorem splitAt_of_not_mem (h : sep ∉ s) : splitAt sep s = [s] := by
  induction s with
  | nil => rfl
  | cons c s ih =>
    rw [List.mem_cons, not_or] at h
    rw [splitAt, if_neg fun heq => h.1 heq.symm, ih h.2]

/-- Text in front without a separator becomes part of the first piece. -/
theorem splitAt_append_left (ha : sep ∉ a) (b : List Char) :
    ∃ p ps, splitAt sep b = p :: ps ∧ splitAt sep (a ++ b) = (a ++ p) :: ps := by
  induction a with
  | nil =>
    obtain ⟨p, ps, h⟩ := List.exists_cons_of_ne_nil (splitAt_ne_nil sep b)
    exact ⟨p, ps, h, h⟩
  | cons c a ih =>
    rw [List.mem_cons, not_or] at ha
    obtain ⟨p, ps, hb, hab⟩ := ih ha.2
    refine ⟨p, ps, hb, ?_⟩
    rw [List.cons_append, splitAt, if_neg fun heq => ha.1 heq.symm, hab]
    rfl

/-- Text behind without a separator becomes part of the last piece. -/
theorem splitAt_append_right (a : List Char) (hb : sep ∉ b) :
    ∃ ps p, splitAt sep a = ps ++ [p] ∧ splitAt sep (a ++ b) = ps ++ [p ++ b] := by
  induction a with
  | nil => exact ⟨[], [], rfl, splitAt_of_not_mem hb⟩
  | cons c a ih =>
    obtain ⟨ps, p, ha, hab⟩ := ih
    rw [List.cons_append, splitAt, splitAt, ha, hab]
    split
    · exact ⟨[] :: ps, p, rfl, rfl⟩
    · cases ps with
      | nil => exact ⟨[], c :: p, rfl, rfl⟩
      | cons q ps => exact ⟨(c :: q) :: ps, p, rfl, rfl⟩

/-- Names without a slash, joined by slashes and cut there again. -/
theorem splitString_joinStrings {s : String} {ss : List String}
    (h : ∀ t, t ∈ s :: ss → '/' ∉ t.toList) :
    splitString '/' (joinStrings "/" (s :: ss)) = s :: ss := by
  induction ss generalizing s with
  | nil =>
    rw [joinStrings, splitString, splitAt_of_not_mem (h s List.mem_cons_self), List.map_singleton,
      String.ofList_toList]
  | cons t rest ih =>
    have hlist : (joinStrings "/" (s :: t :: rest)).toList =
        s.toList ++ '/' :: (joinStrings "/" (t :: rest)).toList := by
      rw [joinStrings, String.toList_append, String.toList_append, List.append_assoc]
      rfl
    have hrest := ih fun u hu => h u (List.mem_cons_of_mem _ hu)
    rw [splitString] at hrest ⊢
    rw [hlist, splitAt_append_cons, splitAt_of_not_mem (h s List.mem_cons_self), List.map_append,
      hrest, List.map_singleton, String.ofList_toList]
    rfl

end Text

namespace Files.Path

/-- Whether a piece of a text counts as a part of the path. -/
def isPart (s : String) : Bool := s ≠ "" ∧ s ≠ "."

theorem parts_ofString (s : String) :
    (ofString s).parts = ((Text.splitAt '/' s.toList).map String.ofList).filter isPart := rfl

/-- The parts of joined texts are those of both. -/
theorem parts_append_slash (s t : String) :
    (ofString (s ++ "/" ++ t)).parts = (ofString s).parts ++ (ofString t).parts := by
  have hlist : (s ++ "/" ++ t).toList = s.toList ++ '/' :: t.toList := by
    rw [String.toList_append, String.toList_append, List.append_assoc]
    rfl
  rw [parts_ofString, hlist, Text.splitAt_append_cons, List.map_append, List.filter_append]
  rfl

/-- A name is its own only part. -/
theorem parts_of_name {s : String} (hslash : '/' ∉ s.toList) (hpart : isPart s = true) :
    (ofString s).parts = [s] := by
  rw [parts_ofString, Text.splitAt_of_not_mem hslash, List.map_singleton, String.ofList_toList,
    List.filter_cons_of_pos hpart]
  rfl

/-- Text behind a path becomes part of its last name, or is put behind it as a name. -/
theorem exists_parts_append (s ending : String) (hslash : '/' ∉ ending.toList)
    (hpart : ∀ t, isPart (t ++ ending) = true) :
    ∃ inside last, (ofString (s ++ ending)).parts = inside ++ [last ++ ending] ∧
      ((ofString s).parts = inside ∨ (ofString s).parts = inside ++ [last]) := by
  obtain ⟨ps, p, hs, hjoined⟩ := Text.splitAt_append_right s.toList hslash
  have hlast : String.ofList (p ++ ending.toList) = String.ofList p ++ ending := by
    rw [String.ofList_append, String.ofList_toList]
  refine ⟨(ps.map String.ofList).filter isPart, String.ofList p, ?_, ?_⟩
  · rw [parts_ofString, String.toList_append, hjoined, List.map_append, List.filter_append,
      List.map_singleton, hlast, List.filter_cons_of_pos (hpart _)]
    rfl
  · rw [parts_ofString, hs, List.map_append, List.filter_append, List.map_singleton]
    cases hp : isPart (String.ofList p) with
    | false =>
      rw [List.filter_cons_of_neg (by simp [hp])]
      exact Or.inl (List.append_nil _)
    | true =>
      rw [List.filter_cons_of_pos hp]
      exact Or.inr rfl

/-- Text before a path becomes part of its first name, or is put before it as a name. -/
theorem exists_parts_prepend {front : String} (hslash : '/' ∉ front.toList)
    (hpart : ∀ t, isPart (front ++ t) = true) (s : String) :
    ∃ first rest, (ofString (front ++ s)).parts = (front ++ first) :: rest ∧
      ((ofString s).parts = rest ∨ (ofString s).parts = first :: rest) := by
  obtain ⟨p, ps, hs, hjoined⟩ := Text.splitAt_append_left hslash s.toList
  have hfirst : String.ofList (front.toList ++ p) = front ++ String.ofList p := by
    rw [String.ofList_append, String.ofList_toList]
  refine ⟨String.ofList p, (ps.map String.ofList).filter isPart, ?_, ?_⟩
  · rw [parts_ofString, String.toList_append, hjoined, List.map_cons, hfirst,
      List.filter_cons_of_pos (hpart _)]
  · rw [parts_ofString, hs, List.map_cons]
    cases hp : isPart (String.ofList p) with
    | false => exact Or.inl (List.filter_cons_of_neg (by simp [hp]))
    | true => exact Or.inr (List.filter_cons_of_pos hp)

/-- A text that does not begin with a slash is a path from the working folder. -/
theorem slashes_eq_zero_iff {s : String} : (ofString s).slashes = 0 ↔
    s.toList.head? ≠ some '/' := by
  have hslashes : (ofString s).slashes = leadingSlashes s.toList := rfl
  rw [hslashes]
  cases hs : s.toList with
  | nil => simp [leadingSlashes]
  | cons c rest =>
    by_cases hc : c = '/'
    · subst hc
      have hlen : (('/' :: rest).takeWhile (· = '/')).length ≠ 0 := by simp
      unfold leadingSlashes
      split
      next h => exact absurd h hlen
      · simp
      · simp
    · simp [leadingSlashes, hc]

/-! ## Paths and their texts -/

/-- A path as texts give it: parts are names without slashes, and at most two slashes are at
its start. -/
structure Plain (p : Path) : Prop where
  slashes : p.slashes ≤ 2
  part : ∀ s, s ∈ p.parts → isPart s = true
  slash : ∀ s, s ∈ p.parts → '/' ∉ s.toList

theorem plain_ofString (s : String) : (ofString s).Plain where
  slashes := by
    have hslashes : (ofString s).slashes = leadingSlashes s.toList := rfl
    rw [hslashes, leadingSlashes]
    split <;> omega
  part t ht := by
    rw [parts_ofString] at ht
    exact (List.mem_filter.1 ht).2
  slash t ht := by
    rw [parts_ofString] at ht
    obtain ⟨cs, hcs, rfl⟩ := List.mem_map.1 (List.mem_filter.1 ht).1
    rw [String.toList_ofList]
    exact Text.not_mem_of_mem_splitAt hcs

theorem Plain.below {p : Path} (h : p.Plain) (s : String) : (p.below s).Plain := by
  unfold Path.below join
  split
  · refine ⟨h.slashes, fun t ht => ?_, fun t ht => ?_⟩
    · exact (List.mem_append.1 ht).elim (h.part t) ((plain_ofString s).part t)
    · exact (List.mem_append.1 ht).elim (h.slash t) ((plain_ofString s).slash t)
  · exact plain_ofString s

end Files.Path

end TypedClients
