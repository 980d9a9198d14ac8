import TypedClients.Proofs.Client.Quotes
import TypedClients.Proofs.TypeText.Expansion

/-!
# Two scans of a written type

A written type is scanned in two ways. Where its operators are looked for, it is followed
character by character, with the open quote and the depth of brackets in hand; where its names
are looked for, its quoted parts are dropped as a whole. In other texts the two may part
company: they do where a quote has no end, or where a line feed is escaped inside quotes. A
written type is made of signs and of quoted parts that are closed, so there they see the same
characters.

* `piecewise_alike`: that both scans see the same is a piecewise property.
* `Piecewise.of_render`: a piecewise property holds of every written type.
* `scans_agree_on_render`: both scans of a written type see the same, and the one with the
  depth ends where it began and never falls below it.
-/

namespace TypedClients

/-! ## Characters outside quotes -/

namespace TypeText

/-- Outside quotes every character is seen but a quote, and only the depth may change. -/
theorem exists_next_outside {c : Char} (hc : isQuote c = false) (d : Int) :
    ∃ d' k, (outside d).next c = outside d' ∧ (outside d).standing c = some k := by
  have hquote : (outside d).quote = none := rfl
  have hstand : (outside d).standing c = some (if isCloser c then d - 1 else d) := by
    rw [Scan.standing, hquote, hc]
    rfl
  by_cases ho : isOpener c = true
  · exact ⟨d + 1, _, by simp [Scan.next, outside, hc, ho], hstand⟩
  · by_cases hcl : isCloser c = true
    · exact ⟨d - 1, _, by simp [Scan.next, outside, hc, ho, hcl], hstand⟩
    · exact ⟨d, _, by simp [Scan.next, outside, hc, ho, hcl], hstand⟩

end TypeText

namespace Client

open Schema (Compositional)
open TypeText (Scan depth_after_nonneg exists_next_outside isQuote outside scan scanFrom
  scanFrom_append scanFrom_quoted)

variable {P : List Char → Prop}

/-! ## Seeing the same -/

/-- Both scans see the same characters of a text, and behind it both are outside quotes. -/
structure Alike (t : List Char) : Prop where
  balanced : Balanced t
  scan : ∀ d, ∃ d', (outside d).after t = outside d' ∧
    (scanFrom (outside d) t).map Prod.fst = unquoted t

theorem Alike.append {t u : List Char} (ht : Alike t) (hu : Alike u) : Alike (t ++ u) := by
  refine ⟨ht.balanced.append hu.balanced, fun d => ?_⟩
  obtain ⟨d', hafter, hseen⟩ := ht.scan d
  obtain ⟨d'', hafter', hseen'⟩ := hu.scan d'
  refine ⟨d'', by rw [TypeText.after_append, hafter, hafter'], ?_⟩
  rw [scanFrom_append, hafter, List.map_append, hseen, hseen', ht.balanced u]

theorem piecewise_alike : Piecewise Alike where
  nil := by
    have hnil : unquoted [] = [] := Plain.unquoted_eq fun _ hc => absurd hc List.not_mem_nil
    exact ⟨piecewise_balanced.nil, fun d => ⟨d, rfl, hnil.symm⟩⟩
  char {c} hc := by
    refine ⟨piecewise_balanced.char hc, fun d => ?_⟩
    obtain ⟨d', k, hnext, hstand⟩ := exists_next_outside hc d
    have hplain : Plain [c] := by
      rw [isQuote, Bool.or_eq_false_iff, decide_eq_false_iff_not, decide_eq_false_iff_not] at hc
      exact fun e he => List.mem_singleton.1 he ▸ hc
    refine ⟨d', by rw [TypeText.after_cons, hnext]; rfl, ?_⟩
    rw [scanFrom, hstand, hplain.unquoted_eq]
    rfl
  quoted {quote t} hq he hs := by
    have hquote : quote = '\x27' ∨ quote = '\x22' := by
      rwa [isQuote, Bool.or_eq_true, decide_eq_true_eq, decide_eq_true_eq] at hq
    obtain ⟨hbalanced, hnone⟩ := balanced_quoted hquote hs
    refine ⟨hbalanced, fun d => ⟨d, (scanFrom_quoted hq he d).2, ?_⟩⟩
    rw [(scanFrom_quoted hq he d).1, hnone]
    rfl
  append := Alike.append

/-! ## Written types piece by piece -/

namespace Piecewise

/-- A piecewise property of texts is compositional, whatever types they stand for. -/
theorem compositional (hP : Piecewise P) : Compositional fun text _ => P text.toList where
  identifier h := hP.word (TypeText.parts_of_isIdentifier h).2
  literal h := hP.literal h
  empty := hP.plain (by decide)
  withNull h n := hP.withNull h n
  arrayOf h := hP.arrayOf h
  dictionary h := hP.dictionary h
  union _ h := by
    have hall := (List.forall₂_and_left _ _).1 (h.imp fun _ _ ht => ⟨ht, trivial⟩)
    exact hP.joinStrings (hP.plain (by decide)) hall.1
  compose mode ts _ h := by
    obtain ⟨hall, -⟩ := (List.forall₂_and_left _ _).1 (h.imp fun _ _ ht => ⟨ht, trivial⟩)
    have hunion : P (Text.joinStrings " | " ts).toList := hP.joinStrings (hP.plain (by decide)) hall
    unfold TypeText.compose
    split
    · exact hP.plain (by decide)
    · cases mode with
      | allOf =>
        refine hP.joinStrings (hP.plain (by decide)) fun t ht => ?_
        obtain ⟨u, hu, rfl⟩ := List.mem_map.1 ht
        exact hP.operand (hall u hu)
      | oneOf => exact hunion
      | anyOf => exact hunion
  braced {ts ms} _ h := by
    refine hP.between (by decide) (by decide) (hP.joinStrings (hP.plain (by decide)) ?_)
    refine ((List.forall₂_and_left _ _).1 (h.imp fun t m ht => ⟨?_, ht⟩)).1
    obtain ⟨type, htype, rfl⟩ := ht
    exact hP.member (hP.propertyKey m.1) htype _

/-- A piecewise property holds of the text of every schema. -/
theorem of_render (hP : Piecewise P) {names : Ordered String}
    (hnames : ∀ e, e ∈ names → Naming.isIdentifier e.2.toList = true) {s : Schema} {text : String}
    (h : s.render names = .ok text) : P text.toList := by
  obtain ⟨_, -, htext⟩ := hP.compositional.of_render hnames s text h
  exact htext

end Piecewise

/-- Both scans of a written type see the same characters. The one with the depth ends as it
began, and there is no place in the text where it stands below zero. -/
theorem scans_agree_on_render {names : Ordered String}
    (hnames : ∀ e, e ∈ names → Naming.isIdentifier e.2.toList = true) {s : Schema} {text : String}
    (h : s.render names = .ok text) :
    (scan text.toList).map Prod.fst = unquoted text.toList ∧
      Scan.start.after text.toList = Scan.start ∧
      (∀ p, p ∈ scan text.toList → 0 ≤ p.2) ∧
      ∀ front, front <+: text.toList → 0 ≤ (Scan.start.after front).depth := by
  obtain ⟨d, -, hseen⟩ := (piecewise_alike.of_render hnames h).scan 0
  obtain ⟨δ, -, hspelled⟩ := Schema.spelled_render hnames s text h
  have heven := hspelled.even
  have hdeep : ∀ p, p ∈ scan text.toList → 0 ≤ p.2 := heven.deep 0
  exact ⟨hseen, heven.after 0, hdeep, fun front hfront => depth_after_nonneg
    (Int.le_refl 0) hdeep hfront⟩

/-- Quotes of both kinds, brackets and backslashes in the names and values of members. -/
def quotedMembers : Schema :=
  .object [("it's", .array (.primitive none none (some [.str "\x22)\\", .str "\\\n'"]) false) true),
    ("pets", .composite .allOf [.reference "#/definitions/Pet" true,
      .primitive none none (some [.list [.str "[\\\x22", .str "'", .int (-1)]]) false] false)]
      ["pets"] none
    false

theorem scans_agree_on_quotedMembers :
    (∀ e, e ∈ [("Pet", "Animal")] → Naming.isIdentifier e.2.toList = true) ∧
      ∃ text, quotedMembers.render [("Pet", "Animal")] = .ok text ∧
        (scan text.toList).map Prod.fst = unquoted text.toList ∧
        Scan.start.after text.toList = Scan.start ∧
        (∀ p, p ∈ scan text.toList → 0 ≤ p.2) ∧
        ∀ front, front <+: text.toList → 0 ≤ (Scan.start.after front).depth := by
  have hnames : ∀ e, e ∈ [("Pet", "Animal")] → Naming.isIdentifier e.2.toList = true := by decide
  have htext : quotedMembers.render [("Pet", "Animal")] = .ok
      ("\x7b 'it\\'s'?: ('\x22)\\\\' | '\\\\\n\\'')[] | null; " ++
        "pets: (Animal | null) & [\x22[\\\\\\\x22\x22, \x22'\x22, -1] \x7d") :=
    Failure.eq_ok_of_toOption (by decide +kernel)
  exact ⟨hnames, _, htext, scans_agree_on_render hnames htext⟩

end Client

end TypedClients
