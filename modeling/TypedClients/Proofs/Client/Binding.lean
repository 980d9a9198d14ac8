import TypedClients.Proofs.Client.Calls

/-!
# When the arguments of a member can be bound together

A function binds its arguments only if they have different names and none of these is a
reserved word. The arguments of a path are kept apart from those that every member has by the
suffix `Param`, and from nothing else: two placeholders get one argument if they are the same
in camel case, or if one is called like an argument of the member's own and the other like its
replacement; and a placeholder called like a reserved word keeps its name.

* `argumentName_eq_iff`: cleaning a name in camel case loses nothing.
* `pathArgument_eq_iff`: when two placeholders share an argument.
* `bindable_iff_of_member`: the arguments of a member can be bound together exactly if no two
  placeholders of its path do and none is called like a word that cannot be bound.
* `member_binds_twice`: a placeholder called like the replacement of another.
-/

namespace TypedClients.Client

open Naming (argumentName camel identifierChars isAlphanumeric isIdentifier placeholders)
open Script (reservedWords)

/-! ## What can be bound -/

/-- The words that cannot be bound in the body of a class: those that are reserved, and two
names that functions have of their own. -/
def unbindableWords : List String := ["arguments", "eval"] ++ reservedWords

/-- Names that one function can bind. -/
structure Bindable (names : List String) : Prop where
  distinct : names.Nodup
  allowed : ∀ n, n ∈ names → n ∉ unbindableWords

/-- Two placeholders share an argument. -/
def Clash (p q : String) : Prop :=
  camel p = camel q ∨ (camel p ∈ ownArguments ∧ camel q = camel p ++ "Param") ∨
    (camel q ∈ ownArguments ∧ camel p = camel q ++ "Param")

instance (p q : String) : Decidable (Clash p q) :=
  inferInstanceAs (Decidable (camel p = camel q ∨
    (camel p ∈ ownArguments ∧ camel q = camel p ++ "Param") ∨
    (camel q ∈ ownArguments ∧ camel p = camel q ++ "Param")))

/-- The placeholders of paths whose arguments can be bound together. -/
structure Separate (placeholders : List String) : Prop where
  distinct : placeholders.Pairwise fun p q => ¬Clash p q
  allowed : ∀ p, p ∈ placeholders → camel p ∉ unbindableWords

/-! ## Names of arguments -/

/-- Cleaning letters and digits brings in at most underscores. -/
theorem filter_identifierChars {s : List Char} (h : ∀ c, c ∈ s → isAlphanumeric c = true) :
    (identifierChars s).filter (· ≠ '_') = s := by
  have hplain : ∀ c, c ∈ s → c ≠ '_' := by
    rintro c hc rfl
    exact absurd (h _ hc) (by decide)
  have hs : s.filter Naming.isIdentifierPart = s :=
    List.filter_eq_self.2 fun c hc => Naming.isIdentifierPart_of_isAlphanumeric (h c hc)
  have hself : s.filter (· ≠ '_') = s :=
    List.filter_eq_self.2 fun c hc => decide_eq_true (hplain c hc)
  unfold identifierChars
  rw [hs]
  cases s with
  | nil => rfl
  | cons c rest =>
    simp only
    split
    · exact hself
    · exact hself

theorem camel_eq_filter (p : String) :
    (camel p).toList = (argumentName p).toList.filter (· ≠ '_') := by
  rw [argumentName, Naming.identifier, String.toList_ofList,
    filter_identifierChars fun c hc => Naming.isAlphanumeric_of_mem_camel hc]

/-- Cleaning a name in camel case loses nothing. -/
theorem argumentName_eq_iff {p q : String} : argumentName p = argumentName q ↔
    camel p = camel q := by
  constructor
  · intro h
    rw [← String.toList_inj, camel_eq_filter, camel_eq_filter, h]
  · intro h
    rw [argumentName, argumentName, h]

/-- A word of letters is an argument exactly if it is the placeholder in camel case. -/
theorem argumentName_eq_word_iff {p w : String} (hw : isIdentifier w.toList = true)
    (hplain : '_' ∉ w.toList) : argumentName p = w ↔ camel p = w := by
  constructor
  · rintro rfl
    rw [← String.toList_inj, camel_eq_filter, List.filter_eq_self]
    exact fun c hc => decide_eq_true fun h => hplain (h ▸ hc)
  · rintro rfl
    rw [argumentName, Naming.identifier, Naming.identifierChars_eq_self_iff.2 hw,
      String.ofList_toList]

/-- Arguments of members and words that cannot be bound are identifiers without underscores,
and so are the replacements of the former. None of them is both. -/
theorem isIdentifier_of_mem_own {w : String} (h : w ∈ ownArguments) :
    isIdentifier w.toList = true ∧ '_' ∉ w.toList ∧
      isIdentifier (w ++ "Param").toList = true ∧ '_' ∉ (w ++ "Param").toList ∧
      w ++ "Param" ∉ ownArguments ∧ w ∉ unbindableWords ∧ w ++ "Param" ∉ unbindableWords := by
  have hall : ∀ w, w ∈ ownArguments → isIdentifier w.toList = true ∧ '_' ∉ w.toList ∧
      isIdentifier (w ++ "Param").toList = true ∧ '_' ∉ (w ++ "Param").toList ∧
      w ++ "Param" ∉ ownArguments ∧ w ∉ unbindableWords ∧ w ++ "Param" ∉ unbindableWords := by
    decide +kernel
  exact hall w h

theorem isIdentifier_of_mem_unbindable {w : String} (h : w ∈ unbindableWords) :
    isIdentifier w.toList = true ∧ '_' ∉ w.toList := by
  have hall : ∀ w, w ∈ unbindableWords → isIdentifier w.toList = true ∧ '_' ∉ w.toList := by
    decide +kernel
  exact hall w h

theorem argumentName_mem_own_iff {p : String} :
    argumentName p ∈ ownArguments ↔ camel p ∈ ownArguments := by
  constructor
  · intro h
    obtain ⟨hw, hplain, -⟩ := isIdentifier_of_mem_own h
    rwa [(argumentName_eq_word_iff hw hplain).1 rfl]
  · intro h
    obtain ⟨hw, hplain, -⟩ := isIdentifier_of_mem_own h
    rwa [(argumentName_eq_word_iff hw hplain).2 rfl]

theorem pathArgument_of_own {p : String} (h : camel p ∈ ownArguments) :
    pathArgument p = camel p ++ "Param" := by
  obtain ⟨hw, hplain, -⟩ := isIdentifier_of_mem_own h
  have hname : argumentName p = camel p := (argumentName_eq_word_iff hw hplain).2 rfl
  simp only [pathArgument, hname]
  rw [if_pos (List.contains_iff_mem.2 h)]

theorem pathArgument_of_not_own {p : String} (h : camel p ∉ ownArguments) :
    pathArgument p = argumentName p := by
  have hname : argumentName p ∉ ownArguments := mt argumentName_mem_own_iff.1 h
  simp only [pathArgument]
  rw [if_neg (mt List.contains_iff_mem.1 hname)]

/-- When one of two placeholders alone is called like an argument of the member's own. -/
theorem pathArgument_eq_iff_of_own {p q : String} (hp : camel p ∈ ownArguments)
    (hq : camel q ∉ ownArguments) :
    pathArgument p = pathArgument q ↔ camel q = camel p ++ "Param" := by
  obtain ⟨-, -, hw, hplain, -⟩ := isIdentifier_of_mem_own hp
  rw [pathArgument_of_own hp, pathArgument_of_not_own hq, eq_comm,
    argumentName_eq_word_iff hw hplain]

/-- Two placeholders share an argument exactly if they clash. -/
theorem pathArgument_eq_iff {p q : String} : pathArgument p = pathArgument q ↔ Clash p q := by
  unfold Clash
  by_cases hp : camel p ∈ ownArguments
  · obtain ⟨-, -, -, -, hparam, -⟩ := isIdentifier_of_mem_own hp
    by_cases hq : camel q ∈ ownArguments
    · obtain ⟨-, -, -, -, hparam', -⟩ := isIdentifier_of_mem_own hq
      rw [pathArgument_of_own hp, pathArgument_of_own hq, String.append_left_inj]
      constructor
      · exact Or.inl
      · rintro (h | ⟨-, h⟩ | ⟨-, h⟩)
        · exact h
        · exact absurd (h ▸ hq) hparam
        · exact absurd (h ▸ hp) hparam'
    · rw [pathArgument_eq_iff_of_own hp hq]
      constructor
      · exact fun h => Or.inr (Or.inl ⟨hp, h⟩)
      · rintro (h | ⟨-, h⟩ | ⟨h, -⟩)
        · exact absurd (h ▸ hp) hq
        · exact h
        · exact absurd h hq
  · by_cases hq : camel q ∈ ownArguments
    · rw [eq_comm, pathArgument_eq_iff_of_own hq hp]
      constructor
      · exact fun h => Or.inr (Or.inr ⟨hq, h⟩)
      · rintro (h | ⟨h, -⟩ | ⟨-, h⟩)
        · exact absurd (h.symm ▸ hq) hp
        · exact absurd h hp
        · exact h
    · rw [pathArgument_of_not_own hp, pathArgument_of_not_own hq, argumentName_eq_iff]
      constructor
      · exact Or.inl
      · rintro (h | ⟨h, -⟩ | ⟨h, -⟩)
        · exact h
        · exact absurd h hp
        · exact absurd h hq

/-- The argument of a placeholder cannot be bound exactly if the placeholder is called like
such a word. -/
theorem pathArgument_mem_unbindable_iff {p : String} :
    pathArgument p ∈ unbindableWords ↔ camel p ∈ unbindableWords := by
  by_cases hp : camel p ∈ ownArguments
  · obtain ⟨-, -, -, -, -, hword, hparam⟩ := isIdentifier_of_mem_own hp
    rw [pathArgument_of_own hp]
    exact iff_of_false hparam hword
  · rw [pathArgument_of_not_own hp]
    constructor
    · intro h
      obtain ⟨hw, hplain⟩ := isIdentifier_of_mem_unbindable h
      rwa [(argumentName_eq_word_iff hw hplain).1 rfl]
    · intro h
      obtain ⟨hw, hplain⟩ := isIdentifier_of_mem_unbindable h
      rwa [(argumentName_eq_word_iff hw hplain).2 rfl]

/-! ## Members -/

theorem nodup_fixedNames (o : Operation) :
    (fixedNames o).Nodup ∧ ∀ n, n ∈ fixedNames o → n ∈ ownArguments ∧ n ∉ unbindableWords := by
  unfold fixedNames
  cases takesData o <;> cases o.queryParams.isEmpty <;> decide

/-- The arguments of a member can be bound together exactly if no two placeholders of its path
share an argument and none is called like a word that cannot be bound. -/
theorem bindable_iff_of_member {name : String} {o : Operation} {t : TypeTable} {m : Member}
    (h : member name o t = .ok m) :
    Bindable (m.arguments.map Argument.name) ↔ Separate (placeholders o.path) := by
  obtain ⟨hfixed, hown⟩ := nodup_fixedNames o
  have hdisjoint : ∀ n, n ∈ substituted o.path → ∀ n', n' ∈ fixedNames o → n ≠ n' := by
    rintro n hn _ hmem rfl
    exact substituted_not_own hn (hown n hmem).1
  have hdistinct : (substituted o.path).Nodup ↔
      (placeholders o.path).Pairwise fun p q => ¬Clash p q := by
    rw [substituted_eq, List.Nodup, List.pairwise_map]
    simp only [ne_eq, pathArgument_eq_iff]
  rw [names_of_member h]
  constructor
  · rintro ⟨hnodup, hallowed⟩
    refine ⟨hdistinct.1 (List.nodup_append.1 hnodup).1, fun p hp hword => ?_⟩
    refine hallowed (pathArgument p) (List.mem_append_left _ ?_)
      (pathArgument_mem_unbindable_iff.2 hword)
    rw [substituted_eq]
    exact List.mem_map_of_mem hp
  · rintro ⟨hpairs, hallowed⟩
    refine ⟨List.nodup_append.2 ⟨hdistinct.2 hpairs, hfixed, hdisjoint⟩, fun n hn hword => ?_⟩
    rcases List.mem_append.1 hn with hn | hn
    · rw [substituted_eq] at hn
      obtain ⟨p, hp, rfl⟩ := List.mem_map.1 hn
      exact hallowed p hp (pathArgument_mem_unbindable_iff.1 hword)
    · exact (hown n hn).2 hword

/-- The arguments of an operation with a placeholder called like the body. -/
theorem bindable_correction :
    ∃ m, member "patchOrders" correction .empty = .ok m ∧
      m.arguments.map Argument.name = ["orderId", "dataParam", "data", "params", "options"] ∧
      Bindable (m.arguments.map Argument.name) := by
  have hm : ((member "patchOrders" correction .empty).toOption.map fun m =>
      m.arguments.map Argument.name) =
        some ["orderId", "dataParam", "data", "params", "options"] := by
    decide +kernel
  obtain ⟨m, hsome, hnames⟩ := Option.map_eq_some_iff.1 hm
  have hok := Failure.eq_ok_of_toOption hsome
  exact ⟨m, hok, hnames, (bindable_iff_of_member hok).2 ⟨by decide +kernel, by decide +kernel⟩⟩

/-- A placeholder called like the body beside one called like its replacement, and one called
like a reserved word. -/
theorem member_binds_twice :
    ((member "getExports" { breakout with path := "/exports/{data}/{dataParam}" }
      .empty).toOption.map
      fun m => m.arguments.map Argument.name) = some ["dataParam", "dataParam", "options"] ∧
    ((member "getSchools" { breakout with path := "/schools/{class}" } .empty).toOption.map
      fun m => m.arguments.map Argument.name) = some ["class", "options"] ∧
    ¬Bindable ["dataParam", "dataParam", "options"] ∧ ¬Bindable ["class", "options"] := by
  refine ⟨by decide +kernel, by decide +kernel, fun h => ?_, fun h => ?_⟩
  · exact absurd h.distinct (by decide)
  · exact h.allowed "class" List.mem_cons_self (by decide +kernel)

end TypedClients.Client
