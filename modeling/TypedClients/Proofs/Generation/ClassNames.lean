import TypedClients.Proofs.Generation.Files
import TypedClients.Proofs.Layout.Paths
import TypedClients.Proofs.Naming.Case

/-!
# When the class of a client has a legal name

A class is called like the folders of its client, and these are words in Pascal case or fixed
words. So its name holds letters and digits only; but unlike the names of types and arguments
it is not cleaned afterwards, and is no identifier where the first word begins with a digit.

* `isIdentifier_iff_of_plain`: letters and digits are an identifier unless a digit comes first.
* `beginsWithDigit_serviceName`: whether a service's name begins with one, in terms of title
  and override.
* `generate_names_classes`: the name of every class of a generation, and when it is an identifier.
* `generate_names_class_by_digit`: a title that begins with a digit gives a class no legal name.
-/

namespace TypedClients

namespace Naming

open Text (isAsciiDigit)

/-- Whether the first character of a text is a digit. -/
def beginsWithDigit (s : List Char) : Bool := s.head?.any isAsciiDigit

/-! ## Plain texts -/

/-- Letters and digits are an identifier unless a digit comes first. -/
theorem isIdentifier_iff_of_plain {s : List Char} (hne : s ≠ []) (h : Plain s) :
    isIdentifier s = true ↔ beginsWithDigit s = false := by
  obtain ⟨c, rest, rfl⟩ := List.exists_cons_of_ne_nil hne
  have hpart : ∀ d, d ∈ c :: rest → isIdentifierPart d = true :=
    fun d hd => isIdentifierPart_of_isAlphanumeric (h d hd)
  have hrest : rest.all isIdentifierPart = true :=
    List.all_eq_true.2 fun d hd => hpart d (List.mem_cons_of_mem _ hd)
  have hfirst : beginsWithDigit (c :: rest) = isAsciiDigit c := rfl
  rw [isIdentifier, hrest, Bool.and_true, hfirst]
  exact ⟨not_digit_of_start, isIdentifierStart_of_part (hpart c List.mem_cons_self)⟩

theorem beginsWithDigit_append {s : List Char} (hne : s ≠ []) (t : List Char) :
    beginsWithDigit (s ++ t) = beginsWithDigit s := by
  obtain ⟨c, rest, rfl⟩ := List.exists_cons_of_ne_nil hne
  rfl

/-! ## Names of services -/

/-- A plain text in Pascal case begins with a digit exactly if it does so itself. -/
theorem beginsWithDigit_pascalChars {s : List Char} (h : Plain s) :
    beginsWithDigit (pascalChars s) = beginsWithDigit s := by
  rw [pascalChars_of_plain h]
  cases s with
  | nil => rfl
  | cons c rest => exact isAsciiDigit_upperAscii (h c List.mem_cons_self)

/-- What the name of a service begins with: the given name, or what is left of the title
without generic words, in Pascal case. -/
def serviceStem (title given : Option String) : String :=
  match given.filter (· ≠ "") with
  | some name => pascal name
  | none => pascal (String.ofList (Text.trim (withoutGeneric 0 (title.getD "").toList)))

/-- The name of a service begins with a digit exactly if its stem does. -/
theorem beginsWithDigit_serviceName (title given : Option String) :
    beginsWithDigit (pascal (serviceName title given)).toList =
      beginsWithDigit (serviceStem title given).toList := by
  unfold serviceName serviceStem
  cases given.filter (· ≠ "") with
  | some name => rfl
  | none =>
    simp only
    split
    next hempty =>
      rw [hempty]
      decide
    next hne =>
      have hstem := plain_pascal
        (String.ofList (Text.trim (withoutGeneric 0 (title.getD "").toList)))
      have hservice : Plain "Service".toList := List.all_eq_true.1 (by decide)
      rw [pascal.eq_def (_ ++ _), String.toList_ofList, String.toList_append,
        beginsWithDigit_pascalChars (hstem.append hservice), beginsWithDigit_append]
      exact fun hnil => hne (String.toList_eq_nil_iff.1 hnil)

end Naming

namespace Generation

open Naming (Plain beginsWithDigit isIdentifier pascal serviceStem)

variable {d : Document} {limit : Nat} {options : Options} {out : Output}

/-- A folder is a plain word, or one that a rule names. -/
theorem plain_or_named_of_mem_folderOf {path service : String} {rules : List FolderRule}
    {versions : List String} {part : String}
    (h : part ∈ Layout.folderOf path service rules versions) :
    Plain part.toList ∨ ∃ rule, rule ∈ rules ∧ part = rule.folder := by
  have hroot : Plain Layout.rootFolder.toList := List.all_eq_true.1 (by decide)
  have hpair : ∀ inside, part ∈ [pascal service, inside] → Plain part.toList ∨ part = inside := by
    intro inside hpart
    rcases List.mem_pair.1 hpart with rfl | rfl
    · exact Or.inl (Naming.plain_pascal service)
    · exact Or.inr rfl
  unfold Layout.folderOf at h
  simp only at h
  split at h
  · exact Or.inl ((hpair _ h).elim id fun hpart => hpart ▸ hroot)
  · exact Or.inl ((hpair _ h).elim id fun hpart => hpart ▸ hroot)
  · split at h
    next rule hrule =>
      exact (hpair _ h).imp_right fun hpart => ⟨rule, List.mem_of_find?_eq_some hrule, hpart⟩
    next first _ _ _ _ _ =>
      split at h
      · rw [List.mem_singleton.1 h]
        exact Or.inl (Naming.plain_pascal service)
      · exact Or.inl ((hpair _ h).elim id fun hpart => hpart ▸ Naming.plain_pascal first)

/-- Folders are plain words, if those that rules name are. -/
theorem plain_of_mem_folderOf {path service : String} {rules : List FolderRule}
    {versions : List String} (hrules : ∀ rule, rule ∈ rules → Plain rule.folder.toList)
    {part : String} (h : part ∈ Layout.folderOf path service rules versions) : Plain part.toList :=
  (plain_or_named_of_mem_folderOf h).elim id fun ⟨rule, hrule, hpart⟩ => hpart ▸ hrules rule hrule

theorem plain_join {parts : List String} (h : ∀ part, part ∈ parts → Plain part.toList) :
    Plain (String.join parts).toList := by
  induction parts with
  | nil => exact List.all_eq_true.1 (by decide)
  | cons part rest ih =>
    rw [String.join_cons, String.toList_append]
    exact (h part List.mem_cons_self).append (ih fun p hp => h p (List.mem_cons_of_mem _ hp))

/-- What the class of the client in a folder is called. -/
structure NamesClass (d : Document) (options : Options) (f : FolderOutput) (client : ClientModule) :
    Prop where
  /-- It is called like its folders. -/
  joined : client.name = String.join f.folder ++ "Client"
  /-- No character is outside the ASCII letters and digits. -/
  plain : Plain client.name.toList
  /-- It has a legal name unless its folders begin with a digit. -/
  identifier : isIdentifier client.name.toList = true ↔
    beginsWithDigit (String.join f.folder).toList = false
  /-- For a service that has a name in Pascal case they do if the given name begins with one,
  or else the title. -/
  service : pascal (Naming.serviceName d.info.title options.serviceName) ≠ "" →
    (isIdentifier client.name.toList = true ↔
      beginsWithDigit (serviceStem d.info.title options.serviceName).toList = false)

/-- A folder of plain words that begins with the one of the service names a class so. -/
theorem namesClass_of_isFolder {f : FolderOutput} {client : ClientModule}
    (hfolder : IsFolder (Naming.serviceName d.info.title options.serviceName) f)
    (hparts : ∀ part, part ∈ f.folder → Plain part.toList)
    (hname : client.name = String.join f.folder ++ "Client") : NamesClass d options f client := by
  have hclient : Plain "Client".toList := List.all_eq_true.1 (by decide)
  have hplain : Plain client.name.toList := by
    rw [hname, String.toList_append]
    exact (plain_join hparts).append hclient
  have hne : client.name.toList ≠ [] := by
    rw [hname, String.toList_append]
    exact List.append_ne_nil_of_right_ne_nil _ (by decide)
  have hidentifier : isIdentifier client.name.toList = true ↔
      beginsWithDigit (String.join f.folder).toList = false := by
    rw [Naming.isIdentifier_iff_of_plain hne hplain, hname, String.toList_append]
    by_cases hjoin : (String.join f.folder).toList = []
    · rw [hjoin]
      decide
    · rw [Naming.beginsWithDigit_append hjoin]
  refine ⟨hname, hplain, hidentifier, fun hs => ?_⟩
  have hs' : (pascal (Naming.serviceName d.info.title options.serviceName)).toList ≠ [] :=
    fun hnil => hs (String.toList_eq_nil_iff.1 hnil)
  rw [hidentifier, ← Naming.beginsWithDigit_serviceName]
  rcases hfolder.folder with hf | ⟨inside, hf⟩
  · rw [hf, String.join_cons, String.join_nil, String.append_empty]
  · rw [hf, String.join_cons, String.toList_append, Naming.beginsWithDigit_append hs']

/-- With the default rules, whatever a document generates, the classes are called like their
folders: their names hold letters and digits only, and are identifiers exactly if no digit
comes first, as it does where the title or the given name begins with one. -/
theorem generate_names_classes (hrules : options.rules = Layout.defaultRules)
    (h : (d.generate limit options).outcome = .ok out) :
    ∀ f, f ∈ out.folders → ∃ types client, f.files = [⟨typesFileName, types⟩,
        ⟨client.name, client.text f.folder options.transport d.baseUrl⟩] ∧
      NamesClass d options f client := by
  have hplain : ∀ rule, rule ∈ options.rules → Plain rule.folder.toList := by
    rw [hrules, Layout.defaultRules, List.forall_mem_singleton]
    exact List.all_eq_true.1 (by decide)
  have hfolders := (folders_of_generate h).2
  obtain ⟨p, t, sources, folders, hp, -, hwritten, rfl⟩ := outcome_generate_eq_ok.1 h
  obtain ⟨index, os, -, -, -, rfl⟩ := outcome_parts_eq_ok.1 hp
  intro f hf
  obtain ⟨hfolder, path, hpath⟩ := hfolders f hf
  obtain ⟨g, -, client, hclient, rfl⟩ := exists_written (written_of_folderOutputs hwritten) hf
  refine ⟨_, client, rfl, namesClass_of_isFolder hfolder (fun part hpart => ?_)
    (name_of_client hclient)⟩
  rw [hpath] at hpart
  exact plain_of_mem_folderOf hplain hpart

/-- A document with one operation whose title begins with a digit. -/
def titledByDigit : Document where
  family := .swagger2
  versionText := "2.0"
  info := ⟨some "3D", none, none⟩
  paths := [("/visits", .map [(.str "get", .map [])])]
  definitions := []
  baseUrl := defaultBaseUrl
  root := .map []

theorem generate_names_classes_titledByDigit :
    Options.default.rules = Layout.defaultRules ∧
      ∃ out, (titledByDigit.generate 300 .default).outcome = .ok out ∧
        ∀ f, f ∈ out.folders → ∃ types client, f.files = [⟨typesFileName, types⟩,
            ⟨client.name, client.text f.folder Options.default.transport titledByDigit.baseUrl⟩] ∧
          NamesClass titledByDigit .default f client := by
  have hrun : (titledByDigit.generate 300 .default).outcome.toOption.isSome := by decide +kernel
  obtain ⟨out, hok⟩ := Failure.exists_eq_ok hrun
  exact ⟨rfl, out, hok, generate_names_classes rfl hok⟩

/-- Its one client, and with it the class, has a name that is no identifier. -/
theorem generate_names_class_by_digit :
    ∃ out f types, ∃ client : ClientModule,
      (titledByDigit.generate 300 .default).outcome = .ok out ∧ out.folders = [f] ∧
      f.files = [⟨typesFileName, types⟩,
        ⟨client.name, client.text f.folder Options.default.transport titledByDigit.baseUrl⟩] ∧
      client.name = "3DServiceRootClient" ∧ isIdentifier client.name.toList = false := by
  have hrun : ((titledByDigit.generate 300 .default).outcome.toOption.map fun out =>
      out.folders.map FolderOutput.folder) = some [["3DService", "Root"]] := by decide +kernel
  obtain ⟨out, hout, hfolders⟩ := Option.map_eq_some_iff.1 hrun
  have hok := Failure.eq_ok_of_toOption hout
  obtain ⟨f, hone, hfolder⟩ := List.map_eq_singleton_iff.1 hfolders
  obtain ⟨p, t, sources, folders, -, -, hwritten, rfl⟩ := outcome_generate_eq_ok.1 hok
  have hf : f ∈ folders := by
    rw [show folders = [f] from hone]
    exact List.mem_cons_self
  obtain ⟨g, -, client, hclient, rfl⟩ := exists_written (written_of_folderOutputs hwritten) hf
  have hname : client.name = "3DServiceRootClient" := by
    rw [name_of_client hclient, Group.clientName, show g.folder =
      ["3DService", "Root"] from hfolder]
    decide
  refine ⟨_, _, _, client, hok, hone, rfl, hname, ?_⟩
  rw [hname]
  decide

end Generation

end TypedClients
