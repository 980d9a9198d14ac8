import TypedClients.Proofs.Files.Below
import TypedClients.Proofs.Naming.Identifiers
import TypedClients.Proofs.Writing.Queue

/-!
# Where the paths of generated files lead

The path of a file begins with the name of the service in Pascal case, which is a name, or
empty. In the first case the file is in the folder with this name, unless the name of the
folder inside it goes up. In the other one the path begins with a slash and leads away from
the output folder.

* `IsFolder.confined_iff`: when the files of a folder are inside the one of the service.
* `IsFolder.slashes_ne_zero`: without a name for the service, their paths begin at the root.
* `descends_inside`: only rules name folders that go up.
* `pascal_serviceName_ne_empty`: a service has a name in Pascal case unless it is given one
  that has none.
-/

namespace TypedClients.Generation

open Files (Path Confined descends)
open TypedClients.Group (keyOf)
open Naming (pascal)

variable {service : String} {f : FolderOutput} {folder : Path} {rules : List FolderRule}
  {versions : List String}

/-! ## Names in Pascal case -/

theorem slash_not_mem_pascal (s : String) : '/' ∉ (pascal s).toList :=
  fun h => absurd (Naming.plain_pascal s _ h) (by decide)

/-- A name in Pascal case begins with a letter or a digit. -/
theorem exists_toList_pascal {s : String} (h : pascal s ≠ "") :
    ∃ c rest, (pascal s).toList = c :: rest ∧ Naming.isAlphanumeric c = true := by
  obtain ⟨c, rest, hc⟩ := List.exists_cons_of_ne_nil fun hnil => h (String.toList_eq_nil_iff.1 hnil)
  exact ⟨c, rest, hc, Naming.plain_pascal s c (hc ▸ List.mem_cons_self)⟩

theorem pascal_append_ne {s : String} (h : pascal s ≠ "") {dots : String}
    (hdots : dots.toList.head? = some '.') (t : String) : pascal s ++ t ≠ dots := by
  intro heq
  obtain ⟨c, rest, hc, halpha⟩ := exists_toList_pascal h
  rw [← heq, String.toList_append, hc] at hdots
  rw [Option.some.inj hdots] at halpha
  exact absurd halpha (by decide)

theorem isPart_pascal_append {s : String} (h : pascal s ≠ "") (t : String) :
    Path.isPart (pascal s ++ t) = true := by
  rw [Path.isPart, decide_eq_true_eq]
  exact ⟨fun heq => h (String.append_eq_empty_iff.1 heq).1, pascal_append_ne h (by decide) t⟩

theorem parts_pascal {s : String} (h : pascal s ≠ "") :
    (Path.ofString (pascal s)).parts = [pascal s] := by
  have hpart := isPart_pascal_append h ""
  rw [String.append_empty] at hpart
  exact Path.parts_of_name (slash_not_mem_pascal s) hpart

theorem pascal_ne_parent (s : String) : pascal s ≠ ".." := by
  by_cases h : pascal s = ""
  · rw [h]
    decide
  · rw [← String.append_empty (s := pascal s)]
    exact pascal_append_ne h (by decide) ""

/-! ## The folder inside the one of the service -/

/-- The parts of a folder below the one of the service. -/
def insideOf (f : FolderOutput) : List String :=
  f.folder.tail.flatMap fun i => (Path.ofString i).parts

/-- The folder of a group has the parts of the service, and those inside it; its names run
together are the name of the service, and a text with the parts inside. -/
theorem IsFolder.parts (h : IsFolder service f) (hs : pascal service ≠ "") :
    (Path.ofString (keyOf f.folder)).parts = pascal service :: insideOf f ∧
      ∃ i, String.join f.folder = pascal service ++ i ∧ insideOf f = (Path.ofString i).parts := by
  rcases h.folder with hf | ⟨i, hf⟩
  · rw [insideOf, hf]
    refine ⟨parts_pascal hs, "", ?_, (by decide : [] = (Path.ofString "").parts)⟩
    rw [String.join_cons, String.join_nil]
  · have hkey : keyOf [pascal service, i] = pascal service ++ "/" ++ i := rfl
    rw [insideOf, hf, hkey, Path.parts_append_slash, parts_pascal hs]
    refine ⟨by simp, i, ?_, by simp⟩
    rw [String.join_cons, String.join_cons, String.join_nil, String.append_empty]

theorem below_of_slashes_eq_zero {path : String} (h : (Path.ofString path).slashes = 0)
    (folder : Path) :
    folder.below path = ⟨folder.slashes, folder.parts ++ (Path.ofString path).parts⟩ := if_pos h

/-- The path of a file begins with the name of the service and a slash. -/
theorem IsFolder.exists_toList (h : IsFolder service f) (file : String) :
    ∃ more, (keyOf f.folder ++ "/" ++ file).toList = (pascal service).toList ++ '/' :: more := by
  rcases h.folder with hf | ⟨i, hf⟩
  · refine ⟨file.toList, ?_⟩
    rw [hf, String.toList_append, String.toList_append, List.append_assoc]
    rfl
  · refine ⟨i.toList ++ '/' :: file.toList, ?_⟩
    rw [hf, keyOf, Text.joinStrings, Text.joinStrings]
    simp only [String.toList_append, List.append_assoc]
    rfl

/-- With a name for the service, a file of the folder is below the one of the service. -/
theorem IsFolder.below (h : IsFolder service f) (hs : pascal service ≠ "") (file : String)
    (folder : Path) : folder.below (keyOf f.folder ++ "/" ++ file) =
      ⟨folder.slashes,
        folder.parts ++ pascal service :: (insideOf f ++ (Path.ofString file).parts)⟩ := by
  rw [below_of_slashes_eq_zero, Path.parts_append_slash, (h.parts hs).1, List.cons_append]
  obtain ⟨c, rest, hc, halpha⟩ := exists_toList_pascal hs
  obtain ⟨more, hmore⟩ := h.exists_toList file
  rw [Path.slashes_eq_zero_iff, hmore, hc]
  intro hslash
  rw [Option.some.inj hslash] at halpha
  exact absurd halpha (by decide)

theorem clientFile_ne_parent (t : String) : t ++ "Client.ts" ≠ ".." := by
  intro heq
  have hlength := congrArg String.length heq
  rw [String.length_append] at hlength
  have hlong : "Client.ts".length = 9 := by decide
  have hshort : "..".length = 2 := by decide
  omega

/-- The name of a client is a way that goes up only where the folder inside does, and a file
behind it. -/
theorem IsFolder.clientName (h : IsFolder service f) (hs : pascal service ≠ "")
    (hinside : descends 0 (insideOf f) = true) :
    ∃ inner file, (Path.ofString (String.join f.folder ++ "Client.ts")).parts = inner ++ [file] ∧
      file ≠ ".." ∧ descends 0 inner = true := by
  obtain ⟨i, hjoin, hparts⟩ := (h.parts hs).2
  obtain ⟨inside, last, hends, hi⟩ := Path.exists_parts_append i "Client.ts" (by decide)
    Writing.isPart_append_client
  obtain ⟨first, rest, hbegins, hrest⟩ := Path.exists_parts_prepend (slash_not_mem_pascal service)
    (isPart_pascal_append hs) (i ++ "Client.ts")
  rw [hends] at hrest
  rw [hparts] at hinside
  have hdescends : descends 0 inside = true := by
    rcases hi with hi | hi
    · rw [hi] at hinside
      exact hinside
    · rw [hi] at hinside
      exact Files.descends_of_append hinside
  have hname : pascal service ++ first ≠ ".." := pascal_append_ne hs (by decide) first
  rw [hjoin, String.append_assoc, hbegins]
  rcases hrest with hrest | hrest
  · refine ⟨(pascal service ++ first) :: inside, last ++ "Client.ts", ?_,
      clientFile_ne_parent last, ?_⟩
    · rw [← hrest, List.cons_append]
    · rw [Files.descends, if_neg hname]
      exact Files.descends_mono (Nat.zero_le _) hdescends
  · cases inside with
    | nil =>
      obtain ⟨rfl, rfl⟩ := List.cons.inj hrest
      refine ⟨[], pascal service ++ (last ++ "Client.ts"), rfl, ?_, rfl⟩
      rw [← String.append_assoc]
      exact clientFile_ne_parent _
    | cons name inside =>
      obtain ⟨rfl, rfl⟩ := List.cons.inj hrest
      refine ⟨(pascal service ++ name) :: inside, last ++ "Client.ts", rfl,
        clientFile_ne_parent last, ?_⟩
      rw [Files.descends, if_neg hname]
      rw [Files.descends] at hdescends
      split at hdescends
      · cases hdescends
      · exact Files.descends_mono (Nat.le_refl _) hdescends

/-- With a name for the service, the files of a folder are inside the one of the service
exactly if the way to the folder stays in there. -/
theorem IsFolder.confined_iff (h : IsFolder service f) (hs : pascal service ≠ "") (folder : Path) :
    (∀ path, path ∈ f.paths → Confined folder (pascal service) (folder.below path)) ↔
      descends 0 (insideOf f) = true := by
  rw [h.paths, List.forall_mem_cons, List.forall_mem_singleton, h.below hs, h.below hs]
  have htypes : (Path.ofString "types.ts").parts = ["types.ts"] := by decide
  rw [htypes]
  constructor
  · rintro ⟨⟨inside, file, hpath, -, hdescends⟩, -⟩
    have hparts := List.append_cancel_left (congrArg Path.parts hpath)
    rw [(List.append_inj' (List.cons.inj hparts).2 rfl).1]
    exact hdescends
  · intro hinside
    obtain ⟨inner, file, hclient, hfile, hinner⟩ := h.clientName hs hinside
    refine ⟨⟨insideOf f, "types.ts", rfl, by decide, hinside⟩,
      insideOf f ++ inner, file, ?_, hfile, Files.descends_append hinside hinner⟩
    rw [hclient, List.append_assoc]

/-- Without a name for the service, the paths of files begin at the root. -/
theorem IsFolder.slashes_ne_zero (h : IsFolder service f) (hs : pascal service = "") {path : String}
    (hpath : path ∈ f.paths) : (Path.ofString path).slashes ≠ 0 := by
  have hroot : ∀ file, (Path.ofString (keyOf f.folder ++ "/" ++ file)).slashes ≠ 0 := by
    intro file
    obtain ⟨more, hmore⟩ := h.exists_toList file
    rw [ne_eq, Path.slashes_eq_zero_iff, hmore, hs]
    exact fun hne => hne rfl
  rw [h.paths] at hpath
  rcases List.mem_pair.1 hpath with rfl | rfl
  · exact hroot _
  · exact hroot _

/-! ## Which folders go up -/

/-- Only rules name folders that go up. -/
theorem descends_inside {path : String}
    (hf : f.folder = Layout.folderOf path service rules versions)
    (hrules : ∀ rule, rule ∈ rules → descends 0 (Path.ofString rule.folder).parts = true) :
    descends 0 (insideOf f) = true := by
  have hinside : ∀ inside, f.folder = [pascal service, inside] →
      insideOf f = (Path.ofString inside).parts := by
    intro inside heq
    rw [insideOf, heq]
    exact List.flatMap_singleton _ _
  have hroot : descends 0 (Path.ofString Layout.rootFolder).parts = true := by decide
  unfold Layout.folderOf at hf
  simp only at hf
  split at hf
  · rw [hinside _ hf]
    exact hroot
  · rw [hinside _ hf]
    exact hroot
  · split at hf
    next rule hrule =>
      rw [hinside _ hf]
      exact hrules rule (List.mem_of_find?_eq_some hrule)
    next first _ _ _ _ _ =>
      split at hf
      · rw [insideOf, hf]
        rfl
      · rw [hinside _ hf]
        by_cases hname : pascal first = ""
        · rw [hname]
          decide
        · rw [parts_pascal hname, descends, if_neg (pascal_ne_parent first)]
          rfl

/-! ## Names of services -/

theorem joinWords_concat (raising : Bool) (cs : List Char) :
    ∃ ds c, Naming.joinWords raising (cs ++ ['e']) = ds ++ [c] ∧ (c = 'e' ∨ c = 'E') := by
  induction cs generalizing raising with
  | nil =>
    cases raising with
    | false => exact ⟨[], 'e', by decide, Or.inl rfl⟩
    | true => exact ⟨[], 'E', by decide, Or.inr rfl⟩
  | cons c cs ih =>
    rw [List.cons_append, Naming.joinWords]
    split
    · exact ih true
    · obtain ⟨ds, e, hjoined, he⟩ := ih false
      exact ⟨_, e, by rw [hjoined, ← List.append_assoc], he⟩

/-- What ends in a letter has a name in Pascal case. -/
theorem pascal_append_ne_empty (s : String) : pascal (s ++ "Service") ≠ "" := by
  have hlist : (s ++ "Service").toList = (s.toList ++ "Servic".toList) ++ ['e'] := by
    rw [String.toList_append, List.append_assoc]
    rfl
  obtain ⟨ds, c, hjoined, hc⟩ := joinWords_concat false (s.toList ++ "Servic".toList)
  have hmem : ∃ c, c ∈ Naming.pascalChars (s ++ "Service").toList := by
    rw [hlist, Naming.pascalChars, hjoined]
    cases ds with
    | nil =>
      refine ⟨'E', ?_⟩
      rcases hc with rfl | rfl
      · decide
      · decide
    | cons d ds =>
      refine ⟨c, List.mem_filter.2 ⟨?_, ?_⟩⟩
      · rw [List.cons_append, Naming.raiseFirst]
        simp
      · rcases hc with rfl | rfl
        · decide
        · decide
  intro heq
  obtain ⟨c, hc⟩ := hmem
  have hempty : Naming.pascalChars (s ++ "Service").toList = [] := by
    rw [← String.toList_ofList (l := Naming.pascalChars _)]
    exact String.toList_eq_nil_iff.2 heq
  rw [hempty] at hc
  exact List.not_mem_nil hc

/-- A service has a name in Pascal case, unless it is given one that has none. -/
theorem pascal_serviceName_ne_empty {title given : Option String}
    (h : ∀ name, given = some name → name ≠ "" → pascal name ≠ "") :
    pascal (Naming.serviceName title given) ≠ "" := by
  unfold Naming.serviceName
  split
  next name hname =>
    obtain ⟨hgiven, hne⟩ := Option.filter_eq_some_iff.1 hname
    exact h name hgiven (of_decide_eq_true hne)
  next =>
    simp only
    split
    · decide
    · exact pascal_append_ne_empty _

end TypedClients.Generation
