import TypedClients.Proofs.Document.Rereading
import TypedClients.Settings.Loading

/-!
# Files of any content

A document and the settings are read from files that can hold anything. Bytes that are UTF-8
are a text, and whatever the text is, reading it gives what it should or refuses it, as long
as the readers of JSON and YAML refuse texts in the way that is their own. Bytes that are not
UTF-8 are no text, and they are not refused: reading them ends in a mishap, for a document as
for settings.

* `Document.outcome_fetch_of_file`, `Settings.outcome_load_of_file`: what is read, by the text
  of the file.
* `goodOrRefused_iff_text`: reading gives something good or refuses it exactly if the content
  is a text.
-/

namespace TypedClients

open Files (Path Workspace)
open Files.Session

/-- The text that some bytes are, with every line end as a line feed; none if they are not
UTF-8. -/
def Files.textOf? (bytes : List UInt8) : Option String :=
  (String.fromUTF8? ⟨bytes.toArray⟩).map fun s => String.ofList (Text.normaliseLineEnds s.toList)

/-- What comes of a step is good, or it is a refusal of some kind. -/
inductive GoodOrRefused {α : Type} (kind : ErrorKind) (good : α → Prop) : Except Failure α → Prop
  | good {a : α} (h : good a) : GoodOrRefused kind good (.ok a)
  | refused {cause : Cause} (h : cause.kind = kind) :
    GoodOrRefused kind good (.error (.refused cause))

/-- The readers of JSON and YAML read a text or refuse it for its form. -/
structure Orderly (text : String) : Prop where
  json : ∀ e, Json.read text = .error e → e.isFormal = true
  yaml : ∀ m, Yaml.read text ≠ .error (.mishap m)

theorem not_goodOrRefused_mishap {α : Type} {kind : ErrorKind} {good : α → Prop} (m : Mishap) :
    ¬GoodOrRefused kind good (.error (.mishap m)) := by
  intro h
  cases h

variable {w : Workspace} {bytes : List UInt8} {text location : String} {p : Path}

theorem Files.Session.outcome_at?_of_toOption {e : Option Files.Entry}
    (h : ((at? p).outcome w).1.toOption = some e) : (at? p).outcome w = (.ok e, w) := by
  rw [(reads_at? p).outcome w, Failure.eq_ok_of_toOption h]

theorem Files.Session.outcome_refusing_readText (words : SystemFailure → Cause)
    (h : (at? p).outcome w = (.ok (some (.file bytes)), w)) :
    (refusing words (readText p)).outcome w =
      (match Files.textOf? bytes with
        | some text => .ok text
        | none => .error (.mishap .notUnicode), w) := by
  rw [refusing, outcome_bind, outcome_attempt, outcome_readText_of_file h, Files.textOf?]
  cases String.fromUTF8? ⟨bytes.toArray⟩ with
  | some s => rfl
  | none => rfl

namespace Document

theorem goodOrRefused_requireObject (v : Value) :
    GoodOrRefused .spec (fun v => v.isMap = true) (requireObject v) := by
  unfold requireObject
  split
  next h => exact .good h
  next => exact .refused rfl

theorem goodOrRefused_decodeYaml (h : Orderly text) (e : Option Json.SyntaxError) :
    GoodOrRefused .spec (fun v => v.isMap = true) (decodeYaml text e) := by
  unfold decodeYaml
  split
  next v _ => exact goodOrRefused_requireObject v
  next => exact .refused rfl
  next m hm => exact absurd hm (h.yaml m)

/-- An orderly text is decoded to an object or refused. -/
theorem goodOrRefused_decode (h : Orderly text) (format : Format) :
    GoodOrRefused .spec (fun v => v.isMap = true) (decode format text) := by
  unfold decode
  split
  · exact goodOrRefused_decodeYaml h none
  · split
    next v _ => exact goodOrRefused_requireObject v
    next e he =>
      rw [h.json e he, Bool.not_true, if_neg Bool.false_ne_true]
      split
      · exact .refused rfl
      · exact goodOrRefused_decodeYaml h (some e)

/-- What a document is read as from a file, by the text that the file holds. -/
theorem outcome_fetch_of_file (hinput : location ≠ standardInput)
    (hlocal : isRemote location = false)
    (h : (at? (Path.ofString location)).outcome w = (.ok (some (.file bytes)), w)) :
    ((fetch location).outcome w).1 =
      match Files.textOf? bytes with
      | none => .error (.mishap .notUnicode)
      | some text =>
        if isBlankText text then .error (.refused (.fileEmpty location))
        else decode (formatOfEnding (Path.ofString location).ending) text := by
  have hthere : (hasFile (Path.ofString location)).outcome w = (.ok true, w) := by
    rw [outcome_hasFile, h]
    rfl
  rw [fetch, if_neg hinput, hlocal, if_neg Bool.false_ne_true, ofFile, outcome_bind, hthere]
  simp only [Bool.not_true, Bool.false_eq_true, if_false]
  rw [outcome_bind, outcome_refusing_readText _ h]
  cases Files.textOf? bytes with
  | none => rfl
  | some text =>
    simp only
    split
    · rfl
    · rw [Files.Session.ofExcept, outcome_checked, Checked.outcome_ofExcept]

end Document

namespace Settings

/-- What settings are read as from a file, by the text that the file holds. -/
theorem outcome_load_of_file (h : (at? p).outcome w = (.ok (some (.file bytes)), w)) :
    ((load p).outcome w).1 =
      match Files.textOf? bytes with
      | none => .error (.mishap .notUnicode)
      | some text => ofText p.text text := by
  rw [load, outcome_bind, outcome_refusing_readText _ h]
  cases Files.textOf? bytes with
  | none => rfl
  | some text => rfl

/-- Every text is settings or refused. -/
theorem goodOrRefused_ofText (path text : String) :
    GoodOrRefused .config (fun _ => True) (ofText path text) := by
  unfold ofText
  split
  next => exact .refused rfl
  next v _ =>
    unfold Settings.ofValue
    cases Model.settings v with
    | good s => exact .good True.intro
    | bad issues => exact .refused rfl

end Settings

/-- Whatever a file holds: a document read from it is an object or refused as a document, and
settings read from it are settings or refused as such, exactly if the content is a text.
Otherwise neither is refused; both fail because the content is no text. -/
theorem goodOrRefused_iff_text (hinput : location ≠ Document.standardInput)
    (hlocal : Document.isRemote location = false)
    (hdocument : (at? (Path.ofString location)).outcome w = (.ok (some (.file bytes)), w))
    (hsettings : (at? p).outcome w = (.ok (some (.file bytes)), w))
    (horderly : ∀ text, Files.textOf? bytes = some text → Orderly text) :
    (GoodOrRefused .spec (fun v => v.isMap = true) ((Document.fetch location).outcome w).1 ↔
        (Files.textOf? bytes).isSome) ∧
      (GoodOrRefused .config (fun _ => True) ((Settings.load p).outcome w).1 ↔
        (Files.textOf? bytes).isSome) ∧
      (Files.textOf? bytes = none →
        ((Document.fetch location).outcome w).1 = .error (.mishap .notUnicode) ∧
          ((Settings.load p).outcome w).1 = .error (.mishap .notUnicode)) := by
  rw [Document.outcome_fetch_of_file hinput hlocal hdocument,
    Settings.outcome_load_of_file hsettings]
  cases htext : Files.textOf? bytes with
  | none =>
    have hnone : ¬(none : Option String).isSome := Bool.false_ne_true
    exact ⟨iff_of_false (not_goodOrRefused_mishap _) hnone,
      iff_of_false (not_goodOrRefused_mishap _) hnone,
      fun _ => ⟨rfl, rfl⟩⟩
  | some text =>
    have hdecode := Document.goodOrRefused_decode (horderly text htext)
    refine ⟨iff_of_true ?_ rfl, iff_of_true (Settings.goodOrRefused_ofText _ _) rfl,
      fun h => nomatch h⟩
    dsimp only
    split
    · exact .refused rfl
    · exact hdecode _

/-- A working folder with a document in UTF-8 and with a byte that no text begins with. -/
def twoContents : Workspace where
  tree := ⟨[(["work"], .folder), (["work", "empty.json"], .file [0x7B, 0x7D, 0x0D, 0x0A]),
    (["work", "bytes.json"], .file [0xFF])]⟩
  folder := ["work"]
  environment := []
  userHome := some "/root"
  system := "Linux"
  input := ""
  replies := []
  refusals := []
  nestingLimit := 300

theorem goodOrRefused_iff_text_empty :
    "empty.json" ≠ Document.standardInput ∧ Document.isRemote "empty.json" = false ∧
      (at? (Path.ofString "empty.json")).outcome twoContents =
        (.ok (some (.file [0x7B, 0x7D, 0x0D, 0x0A])), twoContents) ∧
      (∀ text, Files.textOf? [0x7B, 0x7D, 0x0D, 0x0A] = some text → Orderly text) ∧
      GoodOrRefused .spec (fun v => v.isMap = true)
      ((Document.fetch "empty.json").outcome twoContents).1 ∧
      GoodOrRefused .config (fun _ => True)
        ((Settings.load (Path.ofString "empty.json")).outcome twoContents).1 := by
  have hinput : "empty.json" ≠ Document.standardInput := by decide
  have hlocal : Document.isRemote "empty.json" = false := by decide
  have hfile : (at? (Path.ofString "empty.json")).outcome twoContents =
      (.ok (some (.file [0x7B, 0x7D, 0x0D, 0x0A])), twoContents) :=
    outcome_at?_of_toOption (by decide +kernel)
  have htext : Files.textOf? [0x7B, 0x7D, 0x0D, 0x0A] = some "\x7b\x7d\n" := by decide +kernel
  have hjson : (Json.read "\x7b\x7d\n").toOption.isSome := by decide +kernel
  have hyaml : (Yaml.read "\x7b\x7d\n").toOption.isSome := by decide +kernel
  have horderly : ∀ text, Files.textOf? [0x7B, 0x7D, 0x0D, 0x0A] = some text → Orderly text := by
    intro text h
    rw [htext, Option.some.injEq] at h
    subst h
    refine ⟨fun e he => ?_, fun m hm => ?_⟩
    · rw [he] at hjson
      cases hjson
    · rw [hm] at hyaml
      cases hyaml
  obtain ⟨hdocument, hsettings, -⟩ := goodOrRefused_iff_text hinput hlocal hfile hfile horderly
  have hsome : (Files.textOf? [0x7B, 0x7D, 0x0D, 0x0A]).isSome := htext ▸ rfl
  exact ⟨hinput, hlocal, hfile, horderly, hdocument.2 hsome, hsettings.2 hsome⟩

/-- A file with one byte is there and can be read, but neither a document nor settings are
refused for it. -/
theorem not_goodOrRefused_byte :
    (at? (Path.ofString "bytes.json")).outcome twoContents =
    (.ok (some (.file [0xFF])), twoContents) ∧
      (∀ text, Files.textOf? [0xFF] = some text → Orderly text) ∧
      ¬GoodOrRefused .spec (fun v => v.isMap = true)
      ((Document.fetch "bytes.json").outcome twoContents).1 ∧
      ¬GoodOrRefused .config (fun _ => True)
        ((Settings.load (Path.ofString "bytes.json")).outcome twoContents).1 := by
  have hfile : (at? (Path.ofString "bytes.json")).outcome twoContents =
      (.ok (some (.file [0xFF])), twoContents) := outcome_at?_of_toOption (by decide +kernel)
  have htext : Files.textOf? [0xFF] = none := by decide +kernel
  have hdocument := Document.outcome_fetch_of_file (by decide) (by decide) hfile
  have hsettings := Settings.outcome_load_of_file hfile
  rw [htext] at hdocument hsettings
  refine ⟨hfile, fun text h => ?_, ?_, ?_⟩
  · rw [htext] at h
    cases h
  · rw [hdocument]
    exact not_goodOrRefused_mishap _
  · rw [hsettings]
    exact not_goodOrRefused_mishap _

end TypedClients
