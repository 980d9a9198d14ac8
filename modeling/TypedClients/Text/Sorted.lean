import TypedClients.Text.Surrogate

/-!
# Names in order, once each

Sorting by insertion, dropping what is there already. Names go by a key: by themselves, or by
their code points, where a stand-in counts as the half that it stands for.

* `mem_sortedBy`: sorting loses and adds nothing.
* `pairwise_sortedBy`: what is sorted increases, if the key tells the names apart.
* `codePoints_inj`: code points do.
-/

namespace TypedClients.Text

section

variable {κ : Type} [LT κ] [DecidableLT κ]

/-- A list in increasing order with one more name in its place; a name that is there is not
repeated. -/
def insertName (key : String → κ) (name : String) : List String → List String
  | [] => [name]
  | n :: rest =>
    if name = n then n :: rest
    else if key name < key n then name :: n :: rest
    else n :: insertName key name rest

/-- The names in increasing order of a key, each once. -/
def sortedBy (key : String → κ) (names : List String) : List String :=
  names.foldr (insertName key) []

end

/-- The names in increasing order, each once. -/
def sortedNames (names : List String) : List String := sortedBy id names

/-- The code points of a text. -/
def codePoints (s : String) : List Nat := s.toList.map Surrogate.codePoint

theorem codePoints_inj {s t : String} (h : codePoints s = codePoints t) : s = t :=
  String.toList_inj.1 ((List.map_inj_right fun _ _ => Surrogate.codePoint_inj).1 h)

section

variable {κ : Type} [LT κ] [DecidableLT κ] {key : String → κ} {name other : String}
    {names : List String}

theorem mem_insertName : other ∈ insertName key name names ↔ other = name ∨ other ∈ names := by
  induction names with
  | nil => simp [insertName]
  | cons n rest ih =>
    rw [insertName]
    split
    next h => simp [h]
    next =>
      split
      · simp
      · simp [ih, or_left_comm]

theorem mem_sortedBy : name ∈ sortedBy key names ↔ name ∈ names := by
  induction names with
  | nil => simp [sortedBy]
  | cons n rest ih =>
    rw [sortedBy, List.foldr_cons, mem_insertName, ← sortedBy, ih, List.mem_cons]

variable [LE κ] [Std.IsLinearOrder κ] [Std.LawfulOrderLT κ]

theorem pairwise_insertName (hkey : ∀ s t, key s = key t → s = t) (name : String)
    (h : names.Pairwise fun s t => key s < key t) :
    (insertName key name names).Pairwise fun s t => key s < key t := by
  induction names with
  | nil => exact List.pairwise_singleton _ _
  | cons n rest ih =>
    obtain ⟨hn, hrest⟩ := List.pairwise_cons.1 h
    rw [insertName]
    split
    next => exact h
    next hne =>
      split
      next hlt =>
        refine List.pairwise_cons.2 ⟨fun m hm => ?_, h⟩
        rcases List.mem_cons.1 hm with rfl | hm
        · exact hlt
        · exact Std.lt_trans hlt (hn m hm)
      next hlt =>
        refine List.pairwise_cons.2 ⟨fun m hm => ?_, ih hrest⟩
        rcases mem_insertName.1 hm with rfl | hm
        · exact Std.lt_of_le_of_ne (Std.not_lt.1 hlt) fun he => hne (hkey _ _ he.symm)
        · exact hn m hm

theorem pairwise_sortedBy (hkey : ∀ s t, key s = key t → s = t) (names : List String) :
    (sortedBy key names).Pairwise fun s t => key s < key t := by
  induction names with
  | nil => exact List.Pairwise.nil
  | cons n rest ih => exact pairwise_insertName hkey n ih

end

theorem mem_sortedNames {name : String} {names : List String} :
    name ∈ sortedNames names ↔ name ∈ names := mem_sortedBy

theorem pairwise_sortedNames (names : List String) : (sortedNames names).Pairwise (· < ·) :=
  pairwise_sortedBy (fun _ _ h => h) names

end TypedClients.Text
