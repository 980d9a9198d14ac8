/-!
# Cutting and joining texts

The list-of-characters operations the other modules share: splitting at a separator character,
replacing a pair of characters by a word, and testing for a word at the start, at the end or
inside.

* `joinWith_append`: joined texts are put together with the separator between them.
* `joinWith_splitAt`: splitting at a character and joining with it gives the text back.
* `not_mem_of_mem_splitAt`: no piece contains the separator.
* `joinStrings_append`, `joinStrings_splitString`: the same for strings.
-/

namespace TypedClients.Text

/-- The pieces of a text between the occurrences of a separator; always at least one piece. -/
def splitAt (sep : Char) : List Char → List (List Char)
  | [] => [[]]
  | c :: rest =>
    if c = sep then [] :: splitAt sep rest
    else match splitAt sep rest with
      | [] => [[c]]
      | piece :: pieces => (c :: piece) :: pieces

/-- The pieces of a string between the occurrences of a separator. -/
def splitString (sep : Char) (s : String) : List String :=
  (splitAt sep s.toList).map String.ofList

/-- The texts one after the other, with a separator text between neighbours. -/
def joinWith (sep : List Char) : List (List Char) → List Char
  | [] => []
  | [s] => s
  | s :: t :: rest => s ++ sep ++ joinWith sep (t :: rest)

/-- The strings one after the other, with a separator between neighbours. -/
def joinStrings (sep : String) : List String → String
  | [] => ""
  | [s] => s
  | s :: t :: rest => s ++ sep ++ joinStrings sep (t :: rest)

/-- Every occurrence of a two-character word replaced, from left to right. -/
def replacePair (a b : Char) (new : List Char) : List Char → List Char
  | c :: d :: rest =>
    if c = a ∧ d = b then new ++ replacePair a b new rest
    else c :: replacePair a b new (d :: rest)
  | s => s

/-- Whether a word occurs anywhere in a text. -/
def contains (word : List Char) : List Char → Bool
  | [] => word.isEmpty
  | c :: rest => word.isPrefixOf (c :: rest) || contains word rest

/-- The part after the last occurrence of a separator; the whole text where there is none. -/
def afterLast (sep : Char) (s : List Char) : List Char :=
  (s.reverse.takeWhile (· ≠ sep)).reverse

/-- A string repeated a number of times. -/
def repeated (s : String) : Nat → String
  | 0 => ""
  | n + 1 => s ++ repeated s n

/-! ## Joined texts -/

theorem joinWith_append (sep : List Char) {ts us : List (List Char)} (hts : ts ≠ [])
    (hus : us ≠ []) :
    joinWith sep (ts ++ us) = joinWith sep ts ++ (sep ++ joinWith sep us) := by
  induction ts using joinWith.induct with
  | case1 => exact absurd rfl hts
  | case2 t =>
    obtain ⟨u, rest, rfl⟩ := List.exists_cons_of_ne_nil hus
    rw [List.singleton_append, joinWith, joinWith, List.append_assoc]
  | case3 t t' rest ih =>
    have hrest := ih (List.cons_ne_nil _ _)
    rw [List.cons_append] at hrest
    rw [List.cons_append, List.cons_append, joinWith, hrest, joinWith]
    simp only [List.append_assoc]

/-- An empty piece in front is a separator in front. -/
theorem joinWith_nil_cons (sep : List Char) {ps : List (List Char)} (h : ps ≠ []) :
    joinWith sep ([] :: ps) = sep ++ joinWith sep ps :=
  joinWith_append sep (List.cons_ne_nil [] []) h

theorem joinWith_cons_cons (sep : List Char) (c : Char) (p : List Char) (ps : List (List Char)) :
    joinWith sep ((c :: p) :: ps) = c :: joinWith sep (p :: ps) := by
  cases ps with
  | nil => rfl
  | cons q qs => rfl

/-! ## Splitting and joining are inverse -/

theorem splitAt_ne_nil (sep : Char) (s : List Char) : splitAt sep s ≠ [] := by
  cases s with
  | nil => simp [splitAt]
  | cons c r =>
    simp only [splitAt]
    split
    · simp
    · split <;> simp

theorem joinWith_splitAt (sep : Char) (s : List Char) : joinWith [sep] (splitAt sep s) = s := by
  induction s with
  | nil => rfl
  | cons c r ih =>
    obtain ⟨p, ps, hp⟩ := List.exists_cons_of_ne_nil (splitAt_ne_nil sep r)
    rw [splitAt]
    split
    next hc => rw [joinWith_nil_cons _ (splitAt_ne_nil sep r), ih, hc, List.singleton_append]
    next =>
      rw [hp] at ih ⊢
      rw [joinWith_cons_cons, ih]

theorem not_mem_of_mem_splitAt {sep : Char} {s p : List Char} (hp : p ∈ splitAt sep s) :
    sep ∉ p := by
  induction s generalizing p with
  | nil => simp_all [splitAt]
  | cons c r ih =>
    cases h : splitAt sep r with
    | nil => exact absurd h (splitAt_ne_nil sep r)
    | cons q qs =>
      rw [h] at ih
      by_cases hc : c = sep
      · simp only [splitAt, hc, if_true, h, List.mem_cons] at hp
        rcases hp with rfl | hp
        · simp
        · exact ih (List.mem_cons.2 hp)
      · simp only [splitAt, hc, if_false, h, List.mem_cons] at hp
        rcases hp with rfl | hp
        · simp only [List.mem_cons, not_or]
          exact ⟨fun e => hc e.symm, ih List.mem_cons_self⟩
        · exact ih (List.mem_cons_of_mem _ hp)

/-! ## Joining strings -/

theorem toList_joinStrings (sep : String) (ss : List String) :
    (joinStrings sep ss).toList = joinWith sep.toList (ss.map String.toList) := by
  induction ss with
  | nil => rfl
  | cons s ss ih =>
    cases ss with
    | nil => rfl
    | cons t rest =>
      rw [joinStrings, String.toList_append, String.toList_append, ih]
      rfl

theorem joinStrings_cons (sep s : String) {ss : List String} (h : ss ≠ []) :
    joinStrings sep (s :: ss) = s ++ sep ++ joinStrings sep ss := by
  obtain ⟨t, rest, rfl⟩ := List.exists_cons_of_ne_nil h
  rw [joinStrings]

theorem joinStrings_append (sep : String) {ss ts : List String} (hss : ss ≠ []) (hts : ts ≠ []) :
    joinStrings sep (ss ++ ts) = joinStrings sep ss ++ sep ++ joinStrings sep ts := by
  have hmap : ∀ {l : List String}, l ≠ [] → l.map String.toList ≠ [] := fun h e =>
    h (List.map_eq_nil_iff.1 e)
  apply String.toList_inj.1
  rw [toList_joinStrings, List.map_append, joinWith_append _ (hmap hss) (hmap hts)]
  simp only [String.toList_append, toList_joinStrings, List.append_assoc]

theorem joinStrings_splitString (sep : Char) (s : String) :
    joinStrings (String.singleton sep) (splitString sep s) = s := by
  apply String.toList_inj.1
  have hpieces : (splitString sep s).map String.toList = splitAt sep s.toList := by
    rw [splitString, List.map_map]
    exact (List.map_congr_left fun p _ => String.toList_ofList).trans (List.map_id _)
  rw [toList_joinStrings, hpieces, String.toList_singleton]
  exact joinWith_splitAt sep s.toList

end TypedClients.Text
