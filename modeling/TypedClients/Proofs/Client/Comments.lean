import TypedClients.Client.Module
import TypedClients.Proofs.Client.Imports
import TypedClients.Proofs.Client.Placeholders
import TypedClients.Proofs.Report.Outcome
import TypedClients.Proofs.Script.Comment

/-!
# The comments of a client module

A client module is code and comments in turns: a header that names its folder and the base
URL, and a comment ahead of each member, which holds the documentation of an operation. Every
line of documentation is `Harmless`: it is one line, and no end of a comment is left in it. So
the comment of a member ends where it should. Nothing is done to what stands in the header,
which therefore is a comment exactly if no end of one is in it.

* `harmless_of_member`: the documentation of a member is harmless, line by line.
* `isComment_comment`, `isComment_header_iff`: when the comments of a module are comments.
* `text_eq_portions`: the text of a member, and of a module, is its portions put together.
-/

namespace TypedClients

open Script (IsComment ends)

/-! ## Lines of documentation -/

/-- A text that stays inside the comment and on the line that it is put on. -/
structure Harmless (s : List Char) : Prop where
  ends : ends s = 0
  line : ∀ c, c ∈ s → Text.isLineEnd c = false

theorem harmless_of_any {s : List Char} (hends : ends s = 0)
    (hline : s.any Text.isLineEnd = false) : Harmless s :=
  ⟨hends, fun c hc => Bool.eq_false_iff.2 (List.any_eq_false.1 hline c hc)⟩

theorem Harmless.spaced {s t : List Char} (hs : Harmless s) (ht : Harmless t) :
    Harmless (s ++ ' ' :: t) := by
  refine ⟨?_, fun c hc => ?_⟩
  · rw [Script.ends_append_cons (by decide) (by decide), hs.ends, ht.ends]
  · rcases List.mem_append.1 hc with hc | hc
    · exact hs.line c hc
    · rcases List.mem_cons.1 hc with rfl | hc
      · rfl
      · exact ht.line c hc

namespace Text

theorem mem_of_mem_trim {s : List Char} {c : Char} (h : c ∈ trim s) : c ∈ s := by
  rw [trim, trimEnd, List.mem_reverse] at h
  exact (List.dropWhile_sublist _).mem (List.mem_reverse.1 ((List.dropWhile_sublist _).mem h))

/-- What has been read of the current line holds no end of a line, so no line that is read on
from it does. -/
theorem not_isLineEnd_of_mem_linesFrom {current s line : List Char}
    (hcurrent : ∀ c, c ∈ current → isLineEnd c = false) (h : line ∈ linesFrom current s) :
    ∀ c, c ∈ line → isLineEnd c = false := by
  have hreverse : ∀ c, c ∈ current.reverse → isLineEnd c = false :=
    fun c hc => hcurrent c (List.mem_reverse.1 hc)
  have hnone : ∀ c, c ∈ ([] : List Char) → isLineEnd c = false :=
    fun c hc => absurd hc List.not_mem_nil
  induction current, s using linesFrom.induct with
  | case1 =>
    rw [linesFrom] at h
    exact absurd h List.not_mem_nil
  | case2 current hne =>
    rw [linesFrom] at h
    · exact List.mem_singleton.1 h ▸ hreverse
    · exact hne
  | case3 current rest ih =>
    rw [linesFrom] at h
    rcases List.mem_cons.1 h with rfl | h
    · exact hreverse
    · exact ih hnone h hnone
  | case4 current c rest hpair hend ih =>
    rw [linesFrom, if_pos hend] at h
    · rcases List.mem_cons.1 h with rfl | h
      · exact hreverse
      · exact ih hnone h hnone
    · exact hpair
  | case5 current c rest hpair hend ih =>
    rw [linesFrom, if_neg hend] at h
    · have hmore : ∀ d, d ∈ c :: current → isLineEnd d = false :=
        List.forall_mem_cons.2 ⟨Bool.eq_false_iff.2 hend, hcurrent⟩
      exact ih hmore h fun d hd => hmore d (List.mem_reverse.1 hd)
    · exact hpair

/-- No line of a text holds an end of a line. -/
theorem not_isLineEnd_of_mem_lines {s line : List Char} (h : line ∈ lines s) :
    ∀ c, c ∈ line → isLineEnd c = false :=
  not_isLineEnd_of_mem_linesFrom (fun _ hc => absurd hc List.not_mem_nil) h

end Text

namespace Client

open TypeText (isWordPart)

variable {o : Operation} {t : TypeTable} {name : String} {m : Member}

theorem harmless_nil : Harmless [] := ⟨rfl, fun _ hc => absurd hc List.not_mem_nil⟩

/-- A word is harmless. -/
theorem harmless_word {s : List Char} (h : ∀ c, c ∈ s → isWordPart c = true) : Harmless s := by
  refine ⟨Script.ends_of_not_mem fun hc => absurd (h _ hc) (by decide), fun c hc => ?_⟩
  have hrange := TypeText.toNat_of_isWordPart (h c hc)
  simp only [Text.isLineEnd, Bool.or_eq_false_iff, Bool.and_eq_false_iff, decide_eq_false_iff_not,
    beq_eq_false_iff_ne]
  omega

theorem harmless_docLine {line : List Char} (h : ∀ c, c ∈ line → Text.isLineEnd c = false) :
    Harmless (docLine line).toList := by
  rw [docLine, String.toList_ofList]
  have hnew : Harmless ['*', '\\', '/'] := harmless_of_any (by decide) (by decide)
  refine ⟨Script.ends_replacePair _, fun c hc => ?_⟩
  rcases Script.mem_of_mem_replacePair hc with hc | hc
  · exact hnew.line c hc
  · exact h c (Text.mem_of_mem_trim hc)

theorem harmless_docText {text line : String} (h : line ∈ docText text) : Harmless line.toList := by
  obtain ⟨l, hl, rfl⟩ := List.mem_map.1 h
  exact harmless_docLine (Text.not_isLineEnd_of_mem_lines hl)

theorem harmless_joinStrings {lines : List String}
    (h : ∀ line, line ∈ lines → Harmless line.toList) :
    Harmless (Text.joinStrings " " lines).toList := by
  induction lines with
  | nil => exact harmless_nil
  | cons line rest ih =>
    have hline := h line List.mem_cons_self
    have hrest := ih fun l hl => h l (List.mem_cons_of_mem _ hl)
    cases rest with
    | nil => exact hline
    | cons next rest =>
      have htext : (Text.joinStrings " " (line :: next :: rest)).toList =
          line.toList ++ ' ' :: (Text.joinStrings " " (next :: rest)).toList := by
        simp [Text.joinStrings]
      rw [htext]
      exact hline.spaced hrest

theorem harmless_docHeader {line : String} (h : line ∈ docHeader o) : Harmless line.toList := by
  have htext : ∀ {text : Option String}, line ∈ ((said text).map docText).getD [] →
      Harmless line.toList := by
    intro text hline
    cases hsaid : said text with
    | none =>
      rw [hsaid] at hline
      exact absurd hline List.not_mem_nil
    | some s =>
      rw [hsaid] at hline
      exact harmless_docText hline
  rw [docHeader] at h
  simp only [List.mem_append] at h
  rcases h with (h | h) | h
  · exact htext h
  · split at h
    next d hd =>
      split at h
      · exact absurd h List.not_mem_nil
      · rcases List.mem_append.1 h with h | h
        · split at h
          · exact absurd h List.not_mem_nil
          · rw [List.mem_singleton.1 h]
            exact harmless_nil
        · exact harmless_docText h
    next => exact absurd h List.not_mem_nil
  · split at h
    · rw [List.mem_singleton.1 h]
      exact harmless_of_any (by decide) (by decide)
    · exact absurd h List.not_mem_nil

theorem harmless_docArgument (placeholder : String) (p : Option Parameter) :
    Harmless (docArgument (pathArgument placeholder) p).toList := by
  have hparam : Harmless "@param".toList := harmless_of_any (by decide) (by decide)
  have hargument : Harmless (pathArgument placeholder).toList := harmless_word fun c hc =>
    TypeText.isWordPart_of_isIdentifierPart
      (Naming.isIdentifierPart_of_mem (isIdentifier_pathArgument placeholder) hc)
  have hnamed := hparam.spaced hargument
  unfold docArgument
  split
  next d hd =>
    have hdash : Harmless "-".toList := harmless_of_any (by decide) (by decide)
    have hlines : Harmless (Text.joinStrings " " (docText d)).toList :=
      harmless_joinStrings fun line hline => harmless_docText hline
    have htext : ("@param " ++ pathArgument placeholder ++ " - " ++
        Text.joinStrings " " (docText d)).toList =
        ("@param".toList ++ ' ' :: (pathArgument placeholder).toList) ++ ' ' ::
          ("-".toList ++ ' ' :: (Text.joinStrings " " (docText d)).toList) := by simp
    rw [htext]
    exact hnamed.spaced (hdash.spaced hlines)
  next =>
    have htext : ("@param " ++ pathArgument placeholder).toList =
        "@param".toList ++ ' ' :: (pathArgument placeholder).toList := by simp
    rw [htext]
    exact hnamed

/-- Every line of the documentation of a member is harmless. -/
theorem harmless_of_member (h : member name o t = .ok m) {line : String}
    (hline : line ∈ m.docLines) :
    Harmless line.toList := by
  rw [member] at h
  obtain ⟨path, -, h⟩ := bind_eq_ok.1 h
  obtain ⟨query, -, h⟩ := bind_eq_ok.1 h
  cases h
  simp only [List.mem_append] at hline
  rcases hline with (((hline | hline) | hline) | hline) | hline
  · exact harmless_docHeader hline
  · obtain ⟨p, -, rfl⟩ := List.mem_map.1 hline
    exact harmless_docArgument p _
  · split at hline
    · rw [List.mem_singleton.1 hline]
      exact harmless_of_any (by decide) (by decide)
    · exact absurd hline List.not_mem_nil
  · split at hline
    · exact absurd hline List.not_mem_nil
    · rw [List.mem_singleton.1 hline]
      exact harmless_of_any (by decide) (by decide)
  · rw [List.mem_singleton.1 hline]
    exact harmless_of_any (by decide) (by decide)

end Client

/-! ## Comments -/

open Script (Portion)

namespace Member

variable {m : Member}

/-- The comment ahead of a member. -/
def comment (m : Member) : String := "/**\n" ++ String.join (m.docLines.map commentLine) ++ "   */"

/-- The code of a member, from the end of the line of its comment. -/
def code (m : Member) : String :=
  "\n  " ++ m.name ++ " = async (" ++ m.signature ++ "): Promise<APIResponseResult<" ++
    m.returnType ++ ">> => \x7b\n" ++ String.join (m.bodyLines.map fun line => "    " ++ line ++
      "\n") ++ "  \x7d;\n"

/-- A member in parts, with the blank line and the indentation ahead of its comment. -/
def portions (m : Member) : List Portion := [.code "\n  ", .comment m.comment, .code m.code]

theorem text_eq_portions (m : Member) : m.text = String.join (m.portions.map Portion.text) := by
  refine String.toList_inj.1 ?_
  -- unfolded as they are: equations for texts this long are slow to come by
  delta text portions comment code
  simp [Portion.text]

/-- A line of a comment holds the ends that its text holds. -/
theorem ends_commentLine (line : String) (rest : List Char) :
    ends ((commentLine line).toList ++ rest) = ends line.toList + ends rest := by
  rw [commentLine]
  split
  next h =>
    have htext : ("   *" ++ "" ++ "\n").toList ++ rest = "   *".toList ++ '\n' :: rest := by simp
    rw [htext, h, Script.ends_append_cons (by decide) (by decide)]
    rfl
  next =>
    have htext : ("   *" ++ (" " ++ line) ++ "\n").toList ++ rest =
        "   *".toList ++ ' ' :: (line.toList ++ '\n' :: rest) := by simp
    rw [htext, Script.ends_append_cons (by decide) (by decide),
      Script.ends_append_cons (by decide) (by decide)]
    exact Nat.zero_add _

theorem ends_commentLines {lines : List String} (h : ∀ line, line ∈ lines → Harmless line.toList)
    (rest : List Char) : ends ((String.join (lines.map commentLine)).toList ++ rest) =
    ends rest := by
  induction lines with
  | nil => rfl
  | cons line lines ih =>
    rw [List.map_cons, String.join_cons, String.toList_append, List.append_assoc, ends_commentLine,
      ih fun l hl => h l (List.mem_cons_of_mem _ hl), (h line List.mem_cons_self).ends,
      Nat.zero_add]

/-- Documentation of harmless lines is one comment. -/
theorem isComment_comment (h : ∀ line, line ∈ m.docLines → Harmless line.toList) :
    IsComment m.comment := by
  have htext : m.comment.toList = '/' :: '*' :: ('*' :: '\n' ::
      ((String.join (m.docLines.map commentLine)).toList ++ "   ".toList) ++ ['*', '/']) := by
    simp [comment]
  have hopening : m.comment.toList = "/**".toList ++ '\n' ::
      ((String.join (m.docLines.map commentLine)).toList ++ "   */".toList) := by simp [comment]
  rw [Script.isComment_iff htext, hopening, Script.ends_append_cons (by decide) (by decide),
    ends_commentLines h]
  decide

end Member

namespace ClientModule

/-- The comment at the head of a client module. -/
def header (folder : List String) (baseUrl : String) : String :=
  "/**\n * " ++ Text.joinStrings "/" folder ++ " endpoints\n * Base URL: " ++ baseUrl ++ "\n */"

/-- The header holds its own end and those in the path of the folder and in the base URL. -/
theorem ends_header (folder : List String) (baseUrl : String) :
    ends (header folder baseUrl).toList =
      ends (Text.joinStrings "/" folder).toList + ends baseUrl.toList + 1 := by
  have htext : (header folder baseUrl).toList = "/**\n *".toList ++ ' ' ::
      ((Text.joinStrings "/" folder).toList ++ ' ' :: ("endpoints\n * Base URL:".toList ++ ' ' ::
        (baseUrl.toList ++ '\n' :: " */".toList))) := by simp [header]
  rw [htext]
  simp only [Script.ends_append_cons (by decide : ' ' ≠ '*') (by decide : ' ' ≠ '/'),
    Script.ends_append_cons (by decide : '\n' ≠ '*') (by decide : '\n' ≠ '/')]
  have hopening : ends "/**\n *".toList = 0 := by decide
  have hlabel : ends "endpoints\n * Base URL:".toList = 0 := by decide
  have hclosing : ends " */".toList = 1 := by decide
  rw [hopening, hlabel, hclosing]
  omega

theorem isComment_header_iff (folder : List String) (baseUrl : String) :
    IsComment (header folder baseUrl) ↔
      ends (Text.joinStrings "/" folder).toList = 0 ∧ ends baseUrl.toList = 0 := by
  have htext : (header folder baseUrl).toList = '/' :: '*' :: ('*' :: '\n' :: ' ' :: '*' :: ' ' ::
      ((Text.joinStrings "/" folder).toList ++ " endpoints\n * Base URL: ".toList ++
        baseUrl.toList ++ "\n ".toList) ++ ['*', '/']) := by simp [header]
  rw [Script.isComment_iff htext, ends_header]
  omega

/-- The code of a module ahead of its header: what it imports. -/
def opening (m : ClientModule) (transport : String) : String :=
  "import \x7b BaseAPIClient, RequestOptions, APIResponseResult \x7d from '" ++
    transport ++ "';\n" ++ (if m.imports.isEmpty then ""
      else "import \x7b " ++ Text.joinStrings ", " m.imports ++ " \x7d from './types';\n") ++ "\n"

/-- The code between the header and the first member. -/
def classOpening (m : ClientModule) : String :=
  "\nexport class " ++ m.name ++
    " \x7b\n  constructor(private readonly client: BaseAPIClient) \x7b\x7d\n"

/-- A module in parts. -/
def portions (m : ClientModule) (folder : List String) (transport baseUrl : String) :
    List Portion :=
  [.code (m.opening transport), .comment (header folder baseUrl), .code m.classOpening] ++
    m.members.flatMap Member.portions ++ [.code "\x7d\n"]

theorem text_eq_portions (m : ClientModule) (folder : List String) (transport baseUrl : String) :
    m.text folder transport baseUrl =
      String.join ((m.portions folder transport baseUrl).map Portion.text) := by
  have hmembers : String.join (m.members.map Member.text) =
      String.join ((m.members.flatMap Member.portions).map Portion.text) := by
    induction m.members with
    | nil => rfl
    | cons member rest ih =>
      rw [List.map_cons, List.flatMap_cons, List.map_append, String.join_cons,
        String.join_append, ih, Member.text_eq_portions]
  have hopening : "\n/**\n * " = "\n" ++ "/**\n * " := by decide
  have hclosing : "\n */\nexport class " = "\n */" ++ "\nexport class " := by decide
  delta text portions opening header classOpening
  rw [hopening, hclosing, hmembers]
  simp only [List.map_append, List.map_cons, List.map_nil, String.join_append, String.join_cons,
    String.join_nil, Portion.text, String.append_assoc, String.append_empty]

end ClientModule

end TypedClients
