import TypedClients.Proofs.Client.Silence
import TypedClients.Proofs.Generation.ClassNames
import TypedClients.Proofs.Generation.Imports

/-!
# What a document says stays in comments

Summaries and descriptions reach the clients of a document in the comments of their members
only, and are escaped on the way, so that these comments end where they should. The base URL
reaches them in the headers only, but as it is: a header ends early exactly if the base URL
holds an end of a comment, or a folder does, which only a rule can name so.

* `ends_folder_iff`: the path of a folder holds an end of a comment exactly if one of its
  parts does.
* `generate_comments`: where the comments of all clients end, and that the code is that of a
  silent document.
* `generate_header_of_basePath`: a base path that ends the header early.
-/

namespace TypedClients.Generation

open Naming (Plain pascal)
open Script (IsComment Portion ends)

variable {d : Document} {limit : Nat} {options : Options} {out : Output} {f : FolderOutput}

theorem star_not_mem_of_plain {s : List Char} (h : Plain s) : '*' ∉ s := fun hc =>
  absurd (h _ hc) (by decide)

/-- The folder of the service holds no star, so that no end is made where two parts meet. -/
theorem ends_folder_iff {service : String} (h : IsFolder service f) :
    ends (Text.joinStrings "/" f.folder).toList = 0 ↔
      ∀ part, part ∈ f.folder → ends part.toList = 0 := by
  have hstar := star_not_mem_of_plain (Naming.plain_pascal service)
  rcases h.folder with hf | ⟨inside, hf⟩
  · rw [hf, List.forall_mem_singleton]
    rfl
  · have htext : (Text.joinStrings "/" [pascal service, inside]).toList =
        (pascal service).toList ++ '/' :: inside.toList := by simp [Text.joinStrings]
    rw [hf, htext, Script.ends_append_of_not_mem hstar, Script.ends_cons_of_ne (by decide)]
    simp [Script.ends_of_not_mem hstar]

/-- Where the comments in the client of a group end, and what its code is. -/
structure Commented (d : Document) (options : Options) (t : TypeTable) (g : Group)
    (f : FolderOutput) (client : ClientModule) : Prop where
  /-- The client is code and comments in turns. -/
  text : client.text f.folder options.transport d.baseUrl =
    String.join ((client.portions f.folder options.transport d.baseUrl).map Portion.text)
  /-- The comment of every member is one comment, whatever follows it. -/
  members : ∀ m, m ∈ client.members → IsComment m.comment
  /-- Each line of documentation is one line of this comment. -/
  lines : ∀ m, m ∈ client.members → ∀ line, line ∈ m.docLines → Harmless line.toList
  /-- The header is one comment unless the base URL or a folder holds an end of a comment. -/
  header : IsComment (ClientModule.header f.folder d.baseUrl) ↔
    ends d.baseUrl.toList = 0 ∧ ∀ part, part ∈ f.folder → ends part.toList = 0
  /-- A folder that no rule names holds letters and digits only. -/
  folder : ∀ part, part ∈ f.folder → Plain part.toList ∨
    ∃ rule, rule ∈ options.rules ∧ part = rule.folder
  /-- The code is that of the same operations without documentation, for a document without a base
  URL. -/
  code : ∃ silent, g.silent.client t options.nameStyle = .ok silent ∧
    client.codeOf f.folder options.transport d.baseUrl = silent.codeOf f.folder options.transport ""

theorem commented_of_client {t : TypeTable} {g : Group} {client : ClientModule} {service : String}
    (hfolder : IsFolder service f)
    (hparts : ∃ path, f.folder = Layout.folderOf path service options.rules options.versions)
    (h : g.client t options.nameStyle = .ok client) : Commented d options t g f client := by
  have hlines : ∀ m, m ∈ client.members → ∀ line, line ∈ m.docLines → Harmless line.toList := by
    intro m hm line hline
    obtain ⟨o, -, name, hmember⟩ := Client.exists_of_mem_members h hm
    exact Client.harmless_of_member hmember hline
  refine ⟨client.text_eq_portions _ _ _, fun m hm => Member.isComment_comment (hlines m hm),
    hlines, ?_,
    fun part hpart => ?_, ?_⟩
  · rw [ClientModule.isComment_header_iff, ends_folder_iff hfolder, and_comm]
  · obtain ⟨path, hpath⟩ := hparts
    exact plain_or_named_of_mem_folderOf (hpath ▸ hpart)
  · obtain ⟨silent, hsilent, hcode⟩ := Group.code_of_silent h
    exact ⟨silent, hsilent, hcode _ _ _⟩

/-- Whatever a document generates, no documentation ends the comment of a member early, none
of it gets into the code, and the header of a client ends early exactly if the base URL or a
folder holds an end of a comment. -/
theorem generate_comments (h : (d.generate limit options).outcome = .ok out) :
    ∃ p t sources, (parts d limit options).outcome = .ok p ∧
      (types p options).outcome = .ok (t, sources) ∧
      List.Forall₂ (fun g f => ∃ types client, g.client t options.nameStyle = .ok client ∧
        f.files = [types, ⟨client.name, client.text f.folder options.transport d.baseUrl⟩] ∧
        Commented d options t g f client) p.groups out.folders := by
  have hfolders := (folders_of_generate h).2
  obtain ⟨p, t, sources, folders, hp, ht, hwritten, rfl⟩ := outcome_generate_eq_ok.1 h
  refine ⟨p, t, sources, hp, ht, ?_⟩
  have hgroups := written_of_folderOutputs hwritten
  refine List.forall₂_iff_zip.2 ⟨hgroups.length_eq, fun {g f} hgf => ?_⟩
  obtain ⟨client, hclient, rfl⟩ := List.forall₂_zip hgroups hgf
  obtain ⟨hfolder, hparts⟩ := hfolders _ (List.of_mem_zip hgf).2
  exact ⟨_, client, hclient, rfl, commented_of_client hfolder hparts hclient⟩

/-- A document whose base path ends a comment, with an operation whose description tries to. -/
def starredBasePath : Value :=
  .map [(.str "swagger", .str "2.0"), (.str "info", .map [(.str "title", .str "Clinic")]),
    (.str "host", .str "api.example.com"), (.str "basePath", .str "/*/v1"),
    (.str "paths", .map [(.str "/visits", .map [(.str "get", .map
      [(.str "description", .str "All visits */ done()\nand more")])])])]

theorem generate_comments_starredBasePath :
    ∃ d out, Document.ofValue starredBasePath = .ok d ∧
    (d.generate 300 .default).outcome = .ok out ∧
      ∃ p t sources, (parts d 300 .default).outcome = .ok p ∧
        (types p .default).outcome = .ok (t, sources) ∧
        List.Forall₂ (fun g f => ∃ types client, g.client t Options.default.nameStyle = .ok client ∧
          f.files = [types,
            ⟨client.name, client.text f.folder Options.default.transport d.baseUrl⟩] ∧
          Commented d .default t g f client) p.groups out.folders := by
  have hrun : ((Document.ofValue starredBasePath).toOption.bind fun d =>
      (d.generate 300 .default).outcome.toOption).isSome := by decide +kernel
  obtain ⟨out, hout⟩ := Option.isSome_iff_exists.1 hrun
  obtain ⟨d, hd, hout⟩ := Option.bind_eq_some_iff.1 hout
  have hok := Failure.eq_ok_of_toOption hout
  exact ⟨d, out, Failure.eq_ok_of_toOption hd, hok, generate_comments hok⟩

/-- The header of its client ends within the base URL, and what follows in the URL is code. -/
theorem generate_header_of_basePath :
    ∃ d out f types, ∃ client : ClientModule, Document.ofValue starredBasePath = .ok d ∧
      (d.generate 300 .default).outcome = .ok out ∧ out.folders = [f] ∧
      f.files = [types, ⟨client.name, client.text f.folder Options.default.transport d.baseUrl⟩] ∧
      ClientModule.header f.folder d.baseUrl =
        "/**\n * ClinicService/Root endpoints\n * Base URL: https://api.example.com/*/v1\n */" ∧
      ¬ IsComment (ClientModule.header f.folder d.baseUrl) ∧
      Script.afterComment ((ClientModule.header f.folder d.baseUrl).toList.drop 2) =
        some "v1\n */".toList := by
  have hrun : ((Document.ofValue starredBasePath).toOption.bind fun d =>
      (d.generate 300 .default).outcome.toOption.map fun out =>
        (d.baseUrl, out.folders.map FolderOutput.folder)) =
      some ("https://api.example.com/*/v1", [["ClinicService", "Root"]]) := by decide +kernel
  obtain ⟨d, hd, hrun⟩ := Option.bind_eq_some_iff.1 hrun
  obtain ⟨out, hout, hrun⟩ := Option.map_eq_some_iff.1 hrun
  obtain ⟨hurl, hfolders⟩ := Prod.mk.inj hrun
  have hok := Failure.eq_ok_of_toOption hout
  obtain ⟨f, hone, hfolder⟩ := List.map_eq_singleton_iff.1 hfolders
  obtain ⟨p, t, sources, folders, -, -, hwritten, rfl⟩ := outcome_generate_eq_ok.1 hok
  have hf : f ∈ folders := by
    rw [show folders = [f] from hone]
    exact List.mem_cons_self
  obtain ⟨g, -, client, -, rfl⟩ := exists_written (written_of_folderOutputs hwritten) hf
  have hheader : ClientModule.header g.folder d.baseUrl =
      "/**\n * ClinicService/Root endpoints\n * Base URL: https://api.example.com/*/v1\n */" := by
    rw [hurl, show g.folder = ["ClinicService", "Root"] from hfolder]
    decide
  refine ⟨d, _, _, _, client, Failure.eq_ok_of_toOption hd, hok, hone, rfl, hheader, ?_, ?_⟩
  · intro hcomment
    have honce := hcomment.once
    rw [hheader] at honce
    exact absurd honce (by decide)
  · rw [hheader]
    decide

end TypedClients.Generation
