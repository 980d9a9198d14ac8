import Mathlib.Data.List.Find
import Mathlib.Data.List.Induction
import Mathlib.Data.List.Sort
import TypedClients.Layout.Preview
import TypedClients.Proofs.Files.Parts

/-!
# The tree of paths shows them all

A directory is shown when the first path below it comes up, and never again. This is enough
because the paths come in code-point order: those below a directory all begin with its path
and a slash, and so does what is between two of them. They are together, then, and at each
depth the last directory that was shown is the one that holds what comes next.

* `prefix_of_between`, `above_of_between`: what is between two paths below a directory is
  below it too.
* `nested_newFolders`: the directories of one path that have not been shown before go where
  they belong.
* `nested_linesFrom`: so do the lines of all paths, one path after the other.
* `pathsFrom_shown`: where lines go where they belong, their paths can be read back from what
  is shown of them.
* `entries_show_paths`: what the tree of some paths shows, and that they are read back from it.
-/

namespace TypedClients

namespace Text

/-! ## Texts between texts that begin alike -/

theorem codePoints_append (s t : String) : codePoints (s ++ t) = codePoints s ++ codePoints t := by
  rw [codePoints, String.toList_append, List.map_append]
  rfl

/-- What begins with the code points of a text begins with the text. -/
theorem exists_append_of_prefix {s t : String} (h : codePoints s <+: codePoints t) :
    ∃ rest, t = s ++ rest := by
  obtain ⟨us, hus⟩ := h
  obtain ⟨front, back, hlist, hfront, -⟩ := List.map_eq_append_iff.1 hus.symm
  have hs : front = s.toList := (List.map_inj_right fun _ _ => Surrogate.codePoint_inj).1 hfront
  refine ⟨String.ofList back, String.toList_inj.1 ?_⟩
  rw [String.toList_append, String.toList_ofList, ← hs, hlist]

/-- What is between two lists that begin alike begins like them. -/
theorem prefix_of_between {p a b c : List Nat} (ha : p <+: a) (hc : p <+: c) (hab : a < b)
    (hbc : b < c) : p <+: b := by
  induction p generalizing a b c with
  | nil => exact List.nil_prefix
  | cons n p ih =>
    obtain ⟨a', rfl, ha'⟩ := List.cons_prefix_iff.1 ha
    obtain ⟨c', rfl, hc'⟩ := List.cons_prefix_iff.1 hc
    cases b with
    | nil => exact absurd hab (List.not_lt_nil _)
    | cons m b =>
      rcases List.cons_lt_cons_iff.1 hab with hnm | ⟨rfl, hab'⟩
      · rcases List.cons_lt_cons_iff.1 hbc with hmn | ⟨rfl, -⟩
        · omega
        · omega
      · rcases List.cons_lt_cons_iff.1 hbc with hmn | ⟨-, hbc'⟩
        · omega
        · exact List.cons_prefix_cons.2 ⟨rfl, ih ha' hc' hab' hbc'⟩

theorem splitString_append_slash (s t : String) :
    splitString '/' (s ++ "/" ++ t) = splitString '/' s ++ splitString '/' t := by
  have hlist : (s ++ "/" ++ t).toList = s.toList ++ '/' :: t.toList := by
    rw [String.toList_append, String.toList_append, List.append_assoc]
    rfl
  rw [splitString, hlist, splitAt_append_cons, List.map_append]
  rfl

theorem splitString_ne_nil (sep : Char) (s : String) : splitString sep s ≠ [] :=
  fun h => splitAt_ne_nil sep s.toList (List.map_eq_nil_iff.1 h)

theorem slash_not_mem_of_mem_splitString {s part : String} (h : part ∈ splitString '/' s) :
    '/' ∉ part.toList := by
  obtain ⟨piece, hpiece, rfl⟩ := List.mem_map.1 h
  rw [String.toList_ofList]
  exact not_mem_of_mem_splitAt hpiece

end Text

namespace Preview

variable {q here parts : List String} {seen seen' : List (List String)} {a b c path : String}
  {paths rest : List String}

/-! ## Directories above a path -/

/-- Whether a directory is above a path: its parts are the first ones of the path, but not all
of them. -/
def Above (q parts : List String) : Prop := q ≠ [] ∧ q <+: parts ∧ q ≠ parts

theorem above_cons_iff {part : String} :
    Above q (part :: parts) ↔ ∃ inner, q = part :: inner ∧
    (inner = [] ∧ parts ≠ [] ∨ Above inner parts) := by
  constructor
  · rintro ⟨hne, hpre, hall⟩
    rcases List.prefix_cons_iff.1 hpre with rfl | ⟨inner, rfl, hinner⟩
    · exact absurd rfl hne
    · have hproper : inner ≠ parts := fun h => hall (congrArg _ h)
      refine ⟨inner, rfl, ?_⟩
      by_cases hnil : inner = []
      · exact Or.inl ⟨hnil, fun h => hproper (hnil.trans h.symm)⟩
      · exact Or.inr ⟨hnil, hinner, hproper⟩
  · rintro ⟨inner, rfl, ⟨rfl, hparts⟩ | ⟨-, hpre, hproper⟩⟩
    · exact ⟨List.cons_ne_nil _ _, List.cons_prefix_cons.2 ⟨rfl, List.nil_prefix⟩,
        fun h => hparts (List.cons.inj h).2.symm⟩
    · exact ⟨List.cons_ne_nil _ _, List.cons_prefix_cons.2 ⟨rfl, hpre⟩,
        fun h => hproper (List.cons.inj h).2⟩

/-- The directories above a path, from the first one on. -/
theorem above_iff_take : Above q parts ↔ ∃ k, k + 1 < parts.length ∧ q = parts.take (k + 1) := by
  constructor
  · rintro ⟨hne, hpre, hproper⟩
    have hpos := List.length_pos_iff.2 hne
    have hlt : q.length < parts.length :=
      Nat.lt_of_le_of_ne hpre.length_le fun h => hproper (hpre.eq_of_length h)
    refine ⟨q.length - 1, by omega, ?_⟩
    rw [Nat.sub_add_cancel hpos]
    exact List.prefix_iff_eq_take.1 hpre
  · rintro ⟨k, hk, rfl⟩
    have hlength : (parts.take (k + 1)).length = k + 1 := by
      rw [List.length_take]
      omega
    refine ⟨fun h => ?_, List.take_prefix _ _, fun h => ?_⟩
    · rw [h] at hlength
      cases hlength
    · rw [h] at hlength
      omega

/-- A directory is above a path exactly if the path begins with the one of the directory and a
slash. -/
theorem above_splitString_iff (hne : q ≠ []) (hslash : ∀ part, part ∈ q → '/' ∉ part.toList) :
    Above q (Text.splitString '/' path) ↔
      Text.codePoints (Text.joinStrings "/" q ++ "/") <+: Text.codePoints path := by
  constructor
  · rintro ⟨-, ⟨inside, hinside⟩, hproper⟩
    have hrest : inside ≠ [] := by
      rintro rfl
      exact hproper (by rw [← hinside, List.append_nil])
    have hpath : path = Text.joinStrings "/" q ++ "/" ++ Text.joinStrings "/" inside := by
      rw [← Text.joinStrings_append "/" hne hrest, hinside]
      exact (Text.joinStrings_splitString '/' path).symm
    rw [hpath, Text.codePoints_append (Text.joinStrings "/" q ++ "/")]
    exact List.prefix_append _ _
  · intro hpre
    obtain ⟨more, rfl⟩ := Text.exists_append_of_prefix hpre
    have hq : Text.splitString '/' (Text.joinStrings "/" q) = q := by
      obtain ⟨first, others, rfl⟩ := List.exists_cons_of_ne_nil hne
      exact Text.splitString_joinStrings hslash
    rw [Text.splitString_append_slash, hq]
    refine ⟨hne, List.prefix_append _ _, fun h => Text.splitString_ne_nil '/' more ?_⟩
    exact List.append_cancel_left (h.symm.trans (List.append_nil q).symm)

/-- What is between two paths below a directory is below it too. -/
theorem above_of_between (ha : Above q (Text.splitString '/' a))
    (hc : Above q (Text.splitString '/' c)) (hab : Text.codePoints a < Text.codePoints b)
    (hbc : Text.codePoints b < Text.codePoints c) :
    Above q (Text.splitString '/' b) := by
  have hne := ha.1
  have hslash : ∀ part, part ∈ q → '/' ∉ part.toList := fun part hpart =>
    Text.slash_not_mem_of_mem_splitString (ha.2.1.subset hpart)
  rw [above_splitString_iff hne hslash] at ha hc ⊢
  exact Text.prefix_of_between ha hc hab hbc

/-! ## Lines with the directories above them -/

/-- A line of the tree by all parts of its path. -/
structure Line where
  parts : List String
  isDirectory : Bool
  deriving DecidableEq

/-- How many directories are above a line. -/
def Line.depth (l : Line) : Nat := l.parts.length - 1

/-- A line as the tree has it. -/
def Line.entry (l : Line) : Entry := ⟨l.depth, l.parts.getLast?.getD "", l.isDirectory⟩

/-- The directories above a path that goes on from a directory, with the parts of that one in
front. -/
def foldersFrom (here : List String) : List String → List (List String)
  | [] | [_] => []
  | part :: next :: rest => (here ++ [part]) :: foldersFrom (here ++ [part]) (next :: rest)

/-- The lines of directories that have not come yet. -/
def newFolders (seen folders : List (List String)) : List Line :=
  (folders.filter (!seen.contains ·)).map (Line.mk · true)

/-- The lines for paths in order. -/
def linesFrom (seen : List (List String)) : List String → List Line
  | [] => []
  | path :: rest =>
    let parts := Text.splitString '/' path
    newFolders seen (foldersFrom [] parts) ++
      ⟨parts, false⟩ :: linesFrom (foldersFrom [] parts ++ seen) rest

theorem mem_foldersFrom : q ∈ foldersFrom here parts ↔ ∃ inner, Above inner parts ∧
    q = here ++ inner := by
  induction parts generalizing here with
  | nil =>
    refine ⟨fun h => absurd h List.not_mem_nil, ?_⟩
    rintro ⟨inner, ⟨hne, hpre, -⟩, -⟩
    exact absurd (List.prefix_nil.1 hpre) hne
  | cons part rest ih =>
    cases rest with
    | nil =>
      refine ⟨fun h => absurd h List.not_mem_nil, ?_⟩
      rintro ⟨inner, hinner, -⟩
      obtain ⟨_, -, ⟨-, hnil⟩ | ⟨hne, hpre, -⟩⟩ := above_cons_iff.1 hinner
      · exact absurd rfl hnil
      · exact absurd (List.prefix_nil.1 hpre) hne
    | cons next rest =>
      rw [foldersFrom, List.mem_cons, ih]
      constructor
      · rintro (rfl | ⟨inner, hinner, rfl⟩)
        · exact ⟨[part], above_cons_iff.2 ⟨[], rfl, Or.inl ⟨rfl, List.cons_ne_nil _ _⟩⟩, rfl⟩
        · refine ⟨part :: inner, above_cons_iff.2 ⟨inner, rfl, Or.inr hinner⟩, ?_⟩
          rw [List.append_assoc, List.singleton_append]
      · rintro ⟨_, hinner, rfl⟩
        obtain ⟨inner, rfl, ⟨rfl, -⟩ | hinner⟩ := above_cons_iff.1 hinner
        · exact Or.inl rfl
        · refine Or.inr ⟨inner, hinner, ?_⟩
          rw [List.append_assoc, List.singleton_append]

theorem mem_folders : q ∈ foldersFrom [] parts ↔ Above q parts := by
  rw [mem_foldersFrom]
  exact ⟨fun ⟨_, h, hq⟩ => hq ▸ h, fun h => ⟨q, h, rfl⟩⟩

/-! ## The lines are those of the tree -/

theorem newFolders_cons (seen folders : List (List String)) (q : List String) :
    newFolders seen (q :: folders) =
      if q ∈ seen then newFolders seen folders else ⟨q, true⟩ :: newFolders seen folders := by
  unfold newFolders
  by_cases h : q ∈ seen
  · simp [h]
  · simp [h]

/-- A directory that is not among some others makes no difference to what is new of them. -/
theorem newFolders_of_not_mem {folders : List (List String)} (h : q ∉ folders) :
    newFolders (q :: seen) folders = newFolders seen folders := by
  refine congrArg (List.map _) (List.filter_congr fun p hp => ?_)
  have hpq : p ≠ q := fun heq => h (heq ▸ hp)
  simp [hpq]

theorem newFolders_congr (h : ∀ q, q ∈ seen ↔ q ∈ seen') (folders : List (List String)) :
    newFolders seen folders = newFolders seen' folders :=
  congrArg (List.map _) (List.filter_congr fun p _ => by simp [h p])

/-- A directory is not above itself. -/
theorem not_mem_foldersFrom : here ∉ foldersFrom here parts := by
  intro h
  obtain ⟨inner, ⟨hne, -⟩, heq⟩ := mem_foldersFrom.1 h
  exact hne (List.append_cancel_left (heq.symm.trans (List.append_nil here).symm))

theorem directories_eq (seen : List (List String)) (here parts : List String) :
    (directories seen here parts).1 = (newFolders seen (foldersFrom here parts)).map Line.entry ∧
      ∀ q, q ∈ (directories seen here parts).2 ↔ q ∈ foldersFrom here parts ++ seen := by
  induction parts generalizing seen here with
  | nil => exact ⟨rfl, fun q => Iff.rfl⟩
  | cons part rest ih =>
    cases rest with
    | nil => exact ⟨rfl, fun q => Iff.rfl⟩
    | cons next rest =>
      have hstep : directories seen here (part :: next :: rest) =
          if seen.contains (here ++ [part]) then directories seen (here ++ [part]) (next :: rest)
          else
            (⟨here.length, part, true⟩ ::
                (directories ((here ++ [part]) :: seen) (here ++ [part]) (next :: rest)).1,
              (directories ((here ++ [part]) :: seen) (here ++ [part]) (next :: rest)).2) := rfl
      rw [foldersFrom, newFolders_cons, hstep]
      by_cases hseen : here ++ [part] ∈ seen
      · obtain ⟨hentries, hmem⟩ := ih seen (here ++ [part])
        rw [if_pos (List.contains_iff_mem.2 hseen), if_pos hseen]
        refine ⟨hentries, fun q => ?_⟩
        rw [hmem, List.cons_append, List.mem_cons]
        refine ⟨Or.inr, ?_⟩
        rintro (rfl | h)
        · exact List.mem_append_right _ hseen
        · exact h
      · obtain ⟨hentries, hmem⟩ := ih ((here ++ [part]) :: seen) (here ++ [part])
        rw [if_neg fun h => hseen (List.contains_iff_mem.1 h), if_neg hseen, List.map_cons,
          ← newFolders_of_not_mem not_mem_foldersFrom, ← hentries]
        refine ⟨?_, fun q => ?_⟩
        · simp [Line.entry, Line.depth]
        · rw [hmem, List.cons_append, List.mem_append, List.mem_cons, List.mem_cons,
            List.mem_append]
          exact or_left_comm

theorem entriesFrom_eq (h : ∀ q, q ∈ seen ↔ q ∈ seen') :
    entriesFrom seen paths = (linesFrom seen' paths).map Line.entry := by
  induction paths generalizing seen seen' with
  | nil => rfl
  | cons path rest ih =>
    obtain ⟨hentries, hmem⟩ := directories_eq seen [] (Text.splitString '/' path)
    rw [entriesFrom, linesFrom, List.map_append, List.map_cons, ← newFolders_congr h, ← hentries,
      ← ih fun q => ?_]
    · rfl
    · rw [hmem, List.mem_append, List.mem_append, h]

/-! ## What the lines are -/

/-- Every path has one line, in order. -/
theorem files_linesFrom (seen : List (List String)) (paths : List String) :
    ((linesFrom seen paths).filter (!·.isDirectory)).map Line.parts =
      paths.map (Text.splitString '/') := by
  induction paths generalizing seen with
  | nil => rfl
  | cons path rest ih =>
    have hfolders : (newFolders seen (foldersFrom [] (Text.splitString '/' path))).filter
        (!·.isDirectory) = [] := by
      rw [newFolders, List.filter_map, List.map_eq_nil_iff, List.filter_eq_nil_iff]
      exact fun q _ h => Bool.false_ne_true h
    rw [linesFrom, List.filter_append, hfolders, List.nil_append, List.filter_cons_of_pos rfl,
      List.map_cons, ih, List.map_cons]

theorem nodup_foldersFrom (here parts : List String) : (foldersFrom here parts).Nodup := by
  induction parts generalizing here with
  | nil => exact List.nodup_nil
  | cons part rest ih =>
    cases rest with
    | nil => exact List.nodup_nil
    | cons next rest => exact List.nodup_cons.2 ⟨not_mem_foldersFrom, ih _⟩

/-- The directories that have lines. -/
def shownFolders (lines : List Line) : List (List String) :=
  (lines.filter Line.isDirectory).map Line.parts

theorem shownFolders_newFolders (seen folders : List (List String)) :
    shownFolders (newFolders seen folders) = folders.filter (!seen.contains ·) := by
  rw [shownFolders, newFolders, List.filter_map, List.map_map]
  exact (List.map_id _).trans (List.filter_eq_self.2 fun _ _ => rfl)

/-- Every directory above a path that has not come yet has one line. -/
theorem shownFolders_linesFrom (seen : List (List String)) (paths : List String) :
    (shownFolders (linesFrom seen paths)).Nodup ∧
      ∀ q, q ∈ shownFolders (linesFrom seen paths) ↔
        q ∉ seen ∧ ∃ path, path ∈ paths ∧ Above q (Text.splitString '/' path) := by
  induction paths generalizing seen with
  | nil =>
    refine ⟨List.nodup_nil, fun q => ⟨fun h => absurd h List.not_mem_nil, ?_⟩⟩
    rintro ⟨-, path, hpath, -⟩
    exact absurd hpath List.not_mem_nil
  | cons path rest ih =>
    obtain ⟨hnodup, hmem⟩ := ih (foldersFrom [] (Text.splitString '/' path) ++ seen)
    have hsplit : shownFolders (linesFrom seen (path :: rest)) =
        (foldersFrom [] (Text.splitString '/' path)).filter (!seen.contains ·) ++
          shownFolders (linesFrom (foldersFrom [] (Text.splitString '/' path) ++ seen) rest) := by
      rw [← shownFolders_newFolders]
      simp only [linesFrom, shownFolders, List.filter_append, List.map_append]
      rfl
    rw [hsplit]
    refine ⟨List.nodup_append.2 ⟨(nodup_foldersFrom _ _).filter _, hnodup, ?_⟩, fun q => ?_⟩
    · rintro p hp q hq rfl
      exact ((hmem p).1 hq).1 (List.mem_append_left _ (List.mem_filter.1 hp).1)
    · rw [List.mem_append, List.mem_filter, mem_folders, hmem, List.mem_append, mem_folders, not_or,
        Bool.not_eq_true', ← Bool.not_eq_true, List.contains_iff_mem]
      constructor
      · rintro (⟨habove, hnew⟩ | ⟨⟨-, hnew⟩, other, hother, habove⟩)
        · exact ⟨hnew, path, List.mem_cons_self, habove⟩
        · exact ⟨hnew, other, List.mem_cons_of_mem _ hother, habove⟩
      · rintro ⟨hnew, other, hother, habove⟩
        by_cases hfirst : Above q (Text.splitString '/' path)
        · exact Or.inl ⟨hfirst, hnew⟩
        · refine Or.inr ⟨⟨hfirst, hnew⟩, other, ?_, habove⟩
          rcases List.mem_cons.1 hother with rfl | hother
          · exact absurd habove hfirst
          · exact hother

/-! ## Every line is below what comes before it -/

/-- The last directory before a line that was shown at a depth. -/
def nearest (before : List Line) (depth : Nat) : Option Line :=
  before.reverse.find? fun l => l.isDirectory && l.depth = depth

theorem nearest_concat (before : List Line) (l : Line) (depth : Nat) :
    nearest (before ++ [l]) depth =
      if l.isDirectory = true ∧ l.depth = depth then some l else nearest before depth := by
  rw [nearest, List.reverse_append, List.reverse_singleton, List.singleton_append, List.find?_cons]
  by_cases h : l.isDirectory = true ∧ l.depth = depth
  · simp [h]
  · have hnot : (l.isDirectory && decide (l.depth = depth)) = false := by
      rw [Bool.eq_false_iff, ne_eq, Bool.and_eq_true, decide_eq_true_eq]
      exact h
    rw [if_neg h, hnot]
    rfl

theorem nearest_concat_folder (before : List Line) (here : List String) (part : String)
    (depth : Nat) :
    nearest (before ++ [⟨here ++ [part], true⟩]) depth =
      if depth = here.length then some ⟨here ++ [part], true⟩ else nearest before depth := by
  have hdepth : (Line.mk (here ++ [part]) true).depth = here.length := by
    rw [Line.depth, List.length_append, List.length_singleton, Nat.add_sub_cancel]
  simp only [nearest_concat, hdepth, true_and, eq_comm]

/-- The nearest directories are a directory and those above it. -/
def Open (before : List Line) (here : List String) : Prop :=
  ∀ k, k < here.length → nearest before k = some ⟨here.take (k + 1), true⟩

/-- Each of some lines goes on in the nearest directories, where others come before them. -/
def Nested (before : List Line) : List Line → Prop
  | [] => True
  | l :: rest => Open before l.parts.dropLast ∧ Nested (before ++ [l]) rest

theorem nested_append {before lines lines' : List Line} :
    Nested before (lines ++ lines') ↔ Nested before lines ∧ Nested (before ++ lines) lines' := by
  induction lines generalizing before with
  | nil => simp [Nested]
  | cons l lines ih =>
    rw [List.cons_append, Nested, Nested, ih, and_assoc, List.append_assoc, List.singleton_append]

/-- A directory in one that is open is open once it is the nearest at its depth. -/
theorem Open.snoc {before before' : List Line} {part : String} (h : Open before here)
    (hkept : ∀ k, k < here.length → nearest before' k = nearest before k)
    (hlast : nearest before' here.length = some ⟨here ++ [part], true⟩) :
    Open before' (here ++ [part]) := by
  intro k hk
  rw [List.length_append, List.length_singleton] at hk
  rcases Nat.lt_or_eq_of_le (Nat.le_of_lt_succ hk) with hlt | rfl
  · rw [hkept k hlt, h k hlt, List.take_append_of_le_length hlt]
  · rw [hlast, List.take_of_length_le (by simp)]

/-- The directories of one path, from one on that is open, go where they belong, if those that
have been shown before are the nearest ones. After them all directories of the path are open.
-/
theorem nested_newFolders {before : List Line} (hparts : parts ≠ []) (hhere : Open before here)
    (hseen : ∀ q, q ∈ foldersFrom here parts → q ∈ seen →
      nearest before (q.length - 1) = some ⟨q, true⟩) :
    Nested before (newFolders seen (foldersFrom here parts)) ∧
      Open (before ++ newFolders seen (foldersFrom here parts)) (here ++ parts.dropLast) := by
  induction parts generalizing here before with
  | nil => exact absurd rfl hparts
  | cons part rest ih =>
    cases rest with
    | nil =>
      have hnone : newFolders seen (foldersFrom here [part]) = [] := rfl
      rw [hnone, List.append_nil, List.dropLast_singleton, List.append_nil]
      exact ⟨trivial, hhere⟩
    | cons next rest =>
      have hjoined : here ++ (part :: next :: rest).dropLast =
          here ++ [part] ++ (next :: rest).dropLast := by
        rw [List.append_assoc, List.singleton_append,
          List.dropLast_cons_of_ne_nil (List.cons_ne_nil _ _)]
      have hdeeper : ∀ q, q ∈ foldersFrom (here ++ [part]) (next :: rest) →
        q.length - 1 ≠ here.length := by
        intro q hq
        obtain ⟨inner, ⟨hinner, -⟩, rfl⟩ := mem_foldersFrom.1 hq
        have hpos := List.length_pos_iff.2 hinner
        simp only [List.length_append, List.length_singleton]
        omega
      rw [foldersFrom, newFolders_cons, hjoined]
      split
      next hold =>
        have hnear := hseen _ List.mem_cons_self hold
        rw [List.length_append, List.length_singleton, Nat.add_sub_cancel] at hnear
        exact ih (List.cons_ne_nil _ _) (hhere.snoc (fun _ _ => rfl) hnear) fun q hq =>
          hseen q (List.mem_cons_of_mem _ hq)
      next =>
        have hkept : ∀ k, k ≠ here.length →
            nearest (before ++ [⟨here ++ [part], true⟩]) k = nearest before k := by
          intro k hk
          rw [nearest_concat_folder, if_neg hk]
        have hlast := nearest_concat_folder before here part here.length
        rw [if_pos rfl] at hlast
        obtain ⟨hnested, hopen⟩ := ih (List.cons_ne_nil next rest)
          (hhere.snoc (fun k hk => hkept k (Nat.ne_of_lt hk)) hlast) fun q hq hold => by
            rw [hkept _ (hdeeper q hq)]
            exact hseen q (List.mem_cons_of_mem _ hq) hold
        rw [List.append_assoc, List.singleton_append] at hopen
        refine ⟨⟨?_, hnested⟩, hopen⟩
        rw [List.dropLast_concat]
        exact hhere

/-- An open path has the directories above it as the nearest ones. -/
theorem Open.nearest_of_above {before : List Line} (h : Open before parts.dropLast)
    (hq : Above q parts) : nearest before (q.length - 1) = some ⟨q, true⟩ := by
  obtain ⟨k, hk, rfl⟩ := above_iff_take.1 hq
  have hlength : (parts.take (k + 1)).length - 1 = k := by
    rw [List.length_take]
    omega
  have hdrop : k < parts.dropLast.length := by
    rw [List.length_dropLast]
    omega
  rw [hlength, h k hdrop, List.dropLast_eq_take, List.take_take, Nat.min_eq_left (by omega)]

/-- What is known after some paths, where others come: the directories that have been shown
are of paths before these, and they are the nearest ones where they are needed again. -/
structure Standing (before : List Line) (seen : List (List String)) (rest : List String) :
    Prop where
  earlier : ∀ q, q ∈ seen → ∃ a, Above q (Text.splitString '/' a) ∧
    ∀ b, b ∈ rest → Text.codePoints a < Text.codePoints b
  near : ∀ b, b ∈ rest → ∀ q, Above q (Text.splitString '/' b) → q ∈ seen →
    nearest before (q.length - 1) = some ⟨q, true⟩

theorem nested_linesFrom {before : List Line} (hsorted : paths.Pairwise fun s t =>
      Text.codePoints s < Text.codePoints t)
    (h : Standing before seen paths) : Nested before (linesFrom seen paths) := by
  induction paths generalizing before seen with
  | nil => trivial
  | cons path rest ih =>
    obtain ⟨hfirst, hrest⟩ := List.pairwise_cons.1 hsorted
    have hstart : Open before [] := fun k hk => absurd hk (Nat.not_lt_zero k)
    obtain ⟨hnested, hopen⟩ := nested_newFolders (Text.splitString_ne_nil '/' path) hstart
      fun q hq hold => h.near path List.mem_cons_self q (mem_folders.1 hq) hold
    rw [List.nil_append] at hopen
    rw [linesFrom, nested_append]
    refine ⟨hnested, hopen, ih hrest ⟨fun q hq => ?_, fun b hb q hq hold => ?_⟩⟩
    · rcases List.mem_append.1 hq with hq | hq
      · exact ⟨path, mem_folders.1 hq, hfirst⟩
      · obtain ⟨a, ha, hlt⟩ := h.earlier q hq
        exact ⟨a, ha, fun b hb => hlt b (List.mem_cons_of_mem _ hb)⟩
    · -- a directory that has been shown and is needed again is above this path as well
      have habove : Above q (Text.splitString '/' path) := by
        rcases List.mem_append.1 hold with hnew | hold
        · exact mem_folders.1 hnew
        · obtain ⟨a, ha, hlt⟩ := h.earlier q hold
          exact above_of_between ha hq (hlt path List.mem_cons_self) (hfirst b hb)
      rw [nearest_concat, if_neg fun hdirectory => Bool.false_ne_true hdirectory.1]
      exact hopen.nearest_of_above habove

theorem Nested.nearest_eq {before lines front back : List Line} {l : Line} (h : Nested before lines)
    (heq : lines = front ++ l :: back) {k : Nat} (hk : k < l.depth) :
    nearest (before ++ front) k = some ⟨l.parts.take (k + 1), true⟩ := by
  subst heq
  have hopen : Open (before ++ front) l.parts.dropLast := (nested_append.1 h).2.1
  have hlength : k + 1 < l.parts.length := Nat.add_lt_of_lt_sub hk
  have hnear := hopen.nearest_of_above (above_iff_take.2 ⟨k, hlength, rfl⟩)
  rw [List.length_take, Nat.min_eq_left (Nat.le_of_lt hlength), Nat.add_sub_cancel] at hnear
  exact hnear

/-! ## Reading the paths back -/

/-- What is seen of an entry: its depth, and its label with a slash behind the name of a
directory. -/
def Entry.shown (e : Entry) : Nat × String :=
  (e.depth, e.label ++ (if e.isDirectory then "/" else ""))

/-- The text of a line is what is seen of it, indented by its depth. -/
theorem Entry.text_eq (e : Entry) : e.text = Text.repeated "  " e.shown.1 ++ e.shown.2 :=
  String.append_assoc

/-- Whether a label is one of a directory. -/
def endsInSlash (label : String) : Bool := label.toList.getLast? == some '/'

/-- The label of the last directory that was seen at a depth. -/
def labelAbove (before : List (Nat × String)) (depth : Nat) : Option String :=
  (before.reverse.find? fun e => endsInSlash e.2 && e.1 = depth).map (·.2)

/-- The path of a label at a depth: what is above it goes in front, up to the top. -/
def pathOf (before : List (Nat × String)) : Nat → String → String
  | 0, label => label
  | depth + 1, label => pathOf before depth ((labelAbove before depth).getD "" ++ label)

/-- The paths of the labels that are not of directories. -/
def pathsFrom (before : List (Nat × String)) : List (Nat × String) → List String
  | [] => []
  | e :: rest =>
    if endsInSlash e.2 then pathsFrom (before ++ [e]) rest
    else pathOf before e.1 e.2 :: pathsFrom (before ++ [e]) rest

/-- What is seen of a line. -/
def Line.shown (l : Line) : Nat × String := l.entry.shown

/-- A line with a path that can be written down: it has parts, and no slash is in them. -/
def Line.Proper (l : Line) : Prop := l.parts ≠ [] ∧ ∀ part, part ∈ l.parts → '/' ∉ part.toList

theorem Line.shown_file (here : List String) (part : String) :
    (Line.mk (here ++ [part]) false).shown = (here.length, part) := by
  simp [Line.shown, Line.entry, Line.depth, Entry.shown]

theorem Line.shown_folder (here : List String) (part : String) :
    (Line.mk (here ++ [part]) true).shown = (here.length, part ++ "/") := by
  simp [Line.shown, Line.entry, Line.depth, Entry.shown]

/-- The slash behind a label tells the directories from the files. -/
theorem Line.Proper.endsInSlash_shown {l : Line} (h : l.Proper) :
    endsInSlash l.shown.2 = l.isDirectory := by
  obtain ⟨parts, isDirectory⟩ := l
  obtain ⟨here, part, rfl⟩ := (List.eq_nil_or_concat' parts).resolve_left h.1
  cases isDirectory with
  | true =>
    rw [shown_folder, endsInSlash, String.toList_append]
    simp
  | false =>
    rw [shown_file, endsInSlash, Bool.eq_false_iff, ne_eq, beq_iff_eq]
    exact fun hlast => h.2 part (by simp) (List.mem_of_getLast? hlast)

theorem labelAbove_shown {before : List Line} (h : ∀ l, l ∈ before → l.Proper) (depth : Nat) :
    labelAbove (before.map Line.shown) depth = (nearest before depth).map fun l => l.shown.2 := by
  have htest : ∀ l, l ∈ before.reverse →
      (endsInSlash l.shown.2 && decide (l.shown.1 = depth)) =
      (l.isDirectory && decide (l.depth = depth)) := by
    intro l hl
    rw [(h l (List.mem_reverse.1 hl)).endsInSlash_shown]
    rfl
  rw [labelAbove, ← List.map_reverse, List.find?_map, Option.map_map, nearest]
  exact congrArg _ (List.find?_congr htest)

/-- Where the directories above a label are the nearest ones, its path is read back. -/
theorem pathOf_shown {before : List Line} (h : ∀ l, l ∈ before → l.Proper)
    (hopen : Open before here) (label : String) :
    pathOf (before.map Line.shown) here.length label = Text.joinStrings "/" (here ++ [label]) := by
  induction here using List.reverseRecOn generalizing label with
  | nil => rfl
  | append_singleton here part ih =>
    have hlast : nearest before here.length = some ⟨here ++ [part], true⟩ := by
      rw [hopen here.length (by simp), List.take_of_length_le (by simp)]
    have habove : Open before here := by
      intro k hk
      rw [hopen k (by simp; omega), List.take_append_of_le_length hk]
    have hlabel : labelAbove (before.map Line.shown) here.length = some (part ++ "/") := by
      rw [labelAbove_shown h, hlast, Option.map_some, Line.shown_folder]
    rw [List.length_append, List.length_singleton, pathOf, hlabel, Option.getD_some, ih habove,
      List.append_assoc, List.singleton_append]
    by_cases hnil : here = []
    · rw [hnil]
      rfl
    · rw [Text.joinStrings_append "/" hnil (List.cons_ne_nil _ _),
        Text.joinStrings_append "/" hnil (List.cons_ne_nil _ _)]
      rfl

theorem pathsFrom_shown {before lines : List Line} (hbefore : ∀ l, l ∈ before → l.Proper)
    (hlines : ∀ l, l ∈ lines → l.Proper) (h : Nested before lines) :
    pathsFrom (before.map Line.shown) (lines.map Line.shown) =
      ((lines.filter (!·.isDirectory)).map Line.parts).map (Text.joinStrings "/") := by
  induction lines generalizing before with
  | nil => rfl
  | cons l rest ih =>
    obtain ⟨hopen, hnested⟩ := h
    have hl := hlines l List.mem_cons_self
    have hrest := ih (List.forall_mem_append.2 ⟨hbefore, List.forall_mem_singleton.2 hl⟩)
      (fun l hl => hlines l (List.mem_cons_of_mem _ hl)) hnested
    rw [List.map_append, List.map_singleton] at hrest
    rw [List.map_cons, pathsFrom, hl.endsInSlash_shown, hrest]
    obtain ⟨parts, isDirectory⟩ := l
    cases isDirectory with
    | true => rfl
    | false =>
      obtain ⟨here, part, rfl⟩ := (List.eq_nil_or_concat' parts).resolve_left hl.1
      rw [List.dropLast_concat] at hopen
      rw [Line.shown_file, pathOf_shown hbefore hopen]
      rfl

/-! ## The tree of some paths -/

/-- The lines come from paths, so that they can be written down. -/
theorem proper_of_mem_linesFrom {l : Line} (h : l ∈ linesFrom seen paths) : l.Proper := by
  have hsplit : ∀ path, (Line.mk (Text.splitString '/' path) false).Proper := fun path =>
    ⟨Text.splitString_ne_nil '/' path, fun part => Text.slash_not_mem_of_mem_splitString⟩
  obtain ⟨parts, isDirectory⟩ := l
  cases isDirectory with
  | true =>
    have hshown : parts ∈ shownFolders (linesFrom seen paths) :=
      List.mem_map.2 ⟨_, List.mem_filter.2 ⟨h, rfl⟩, rfl⟩
    obtain ⟨-, path, -, hne, hpre, -⟩ := (shownFolders_linesFrom seen paths).2 parts |>.1 hshown
    exact ⟨hne, fun part hpart => (hsplit path).2 part (hpre.subset hpart)⟩
  | false =>
    have hfile : parts ∈ ((linesFrom seen paths).filter (!·.isDirectory)).map Line.parts :=
      List.mem_map.2 ⟨_, List.mem_filter.2 ⟨h, rfl⟩, rfl⟩
    rw [files_linesFrom] at hfile
    obtain ⟨path, -, rfl⟩ := List.mem_map.1 hfile
    exact hsplit path

/-- The order of paths goes by which there are. -/
theorem sortedBy_congr {others : List String} (h : ∀ p, p ∈ others ↔ p ∈ paths) :
    Text.sortedBy Text.codePoints others = Text.sortedBy Text.codePoints paths := by
  have hantisymm : Std.Antisymm fun s t : String => Text.codePoints s < Text.codePoints t :=
    ⟨fun _ _ hst hts => absurd hts (List.lt_asymm hst)⟩
  have hirrefl : Std.Irrefl fun s t : String => Text.codePoints s < Text.codePoints t :=
    ⟨fun _ => List.lt_irrefl _⟩
  refine (Text.pairwise_sortedBy (fun _ _ => Text.codePoints_inj) others).eq_of_mem_iff
    (Text.pairwise_sortedBy (fun _ _ => Text.codePoints_inj) paths) fun p => ?_
  rw [Text.mem_sortedBy, Text.mem_sortedBy, h]

/-- What the tree of some paths shows, by its lines and by the paths in their order. -/
structure Shows (paths ordered : List String) (lines : List Line) : Prop where
  /-- The paths are in code-point order, once each. -/
  increasing : ordered.Pairwise fun s t => Text.codePoints s < Text.codePoints t
  mem_ordered : ∀ path, path ∈ ordered ↔ path ∈ paths
  /-- The tree has these lines, indented by their depths. -/
  entries_eq : entries paths = lines.map Line.entry
  text_eq : text paths = Text.joinStrings "\n"
    ((entries paths).map fun e => Text.repeated "  " e.shown.1 ++ e.shown.2)
  /-- Neither the order in which the paths are given nor their repetition makes a difference. -/
  same : ∀ others, (∀ path, path ∈ others ↔ path ∈ paths) →
    entries others = entries paths ∧ text others = text paths
  /-- Every path has one line, in order. -/
  files : (lines.filter (!·.isDirectory)).map Line.parts = ordered.map (Text.splitString '/')
  /-- Every directory above a path has one line, and nothing else has. -/
  folders_nodup : (shownFolders lines).Nodup
  mem_folders : ∀ q, q ∈ shownFolders lines ↔
    ∃ path, path ∈ paths ∧ Above q (Text.splitString '/' path)
  /-- A directory comes before what is below it. -/
  ahead : ∀ front l back, lines = front ++ l :: back → ∀ q, Above q l.parts → ⟨q, true⟩ ∈ front
  /-- The last directory at a smaller depth is the one that a line is below. -/
  nearest_eq : ∀ front l back, lines = front ++ l :: back → ∀ k, k < l.depth →
    nearest front k = some ⟨l.parts.take (k + 1), true⟩
  /-- The paths can be read back from depths and labels. -/
  readBack : pathsFrom [] ((entries paths).map Entry.shown) = ordered

/-- The tree of some paths shows each of them once, in order, and each directory above them
once, where it belongs; all paths can be read back from it. -/
theorem entries_show_paths (paths : List String) : ∃ ordered lines, Shows paths ordered lines := by
  let ordered := Text.sortedBy Text.codePoints paths
  have hincreasing : ordered.Pairwise fun s t => Text.codePoints s < Text.codePoints t :=
    Text.pairwise_sortedBy (fun _ _ => Text.codePoints_inj) paths
  have hentries : entries paths = (linesFrom [] ordered).map Line.entry :=
    entriesFrom_eq fun _ => Iff.rfl
  have hnested : Nested [] (linesFrom [] ordered) :=
    nested_linesFrom hincreasing ⟨fun _ hq => absurd hq List.not_mem_nil,
      fun _ _ _ _ hq => absurd hq List.not_mem_nil⟩
  have hnearest : ∀ front l back, linesFrom [] ordered = front ++ l :: back → ∀ k, k < l.depth →
      nearest front k = some ⟨l.parts.take (k + 1), true⟩ :=
      fun _ _ _ heq _ hk => hnested.nearest_eq heq hk
  obtain ⟨hnodup, hfolders⟩ := shownFolders_linesFrom [] ordered
  refine ⟨ordered, linesFrom [] ordered, hincreasing, fun _ => Text.mem_sortedBy, hentries,
    congrArg _ (List.map_congr_left fun e _ => e.text_eq), fun others h => ?_,
    files_linesFrom [] ordered, hnodup, fun q => ?_, fun front l back heq q hq => ?_, hnearest, ?_⟩
  · have hsame : entries others = entries paths := congrArg (entriesFrom []) (sortedBy_congr h)
    exact ⟨hsame, by rw [text, hsame, text]⟩
  · rw [hfolders]
    simp only [ordered, Text.mem_sortedBy, List.not_mem_nil, not_false_eq_true, true_and]
  · obtain ⟨k, hk, rfl⟩ := above_iff_take.1 hq
    have hfound := hnearest front l back heq k (Nat.lt_sub_of_add_lt hk)
    exact List.mem_reverse.1 (List.mem_of_find?_eq_some hfound)
  · have hread := pathsFrom_shown (fun _ h => absurd h List.not_mem_nil)
      (fun _ h => proper_of_mem_linesFrom h) hnested
    rw [files_linesFrom, List.map_map] at hread
    rw [hentries, List.map_map]
    refine hread.trans ((List.map_congr_left fun path _ => ?_).trans (List.map_id _))
    exact Text.joinStrings_splitString '/' path

example : text ["svc/b.ts", "svc-old/a.ts", "svc/a.ts", "svc/b.ts"] =
    "svc-old/\n  a.ts\nsvc/\n  a.ts\n  b.ts" := by
  decide +kernel

end Preview

end TypedClients
