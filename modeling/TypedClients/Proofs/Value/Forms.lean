import TypedClients.Json.Printer
import TypedClients.Proofs.Report.Outcome

/-!
# What values are written as on one line

On one line a value is written as a constant, a number, a string, or a collection of such
texts between its brackets. `Form` are the texts that are made in this way, so whatever is to
be said of the text of every value is said by induction on them, one case for each way to make
a text.

* `form_compact`: what a value is written as is such a text. A pair is one of two items.
-/

namespace TypedClients.Json

open Text (joinStrings)

/-- A member of an object, from its name and its text. -/
def member (m : String × String) : String := stringText true m.1 ++ ": " ++ m.2

/-- The texts that values are written as on one line. -/
inductive Form : String → Prop
  | constant {text : String} (h : text ∈ ["null", "true", "false"]) : Form text
  | int (i : Int) : Form (Number.intText i)
  | float (x : Float) : Form (floatText x)
  | string (s : String) : Form (stringText true s)
  | list {ts : List String} (h : ∀ t, t ∈ ts → Form t) : Form ("[" ++ joinStrings ", " ts ++ "]")
  | map {ms : List (String × String)} (h : ∀ m, m ∈ ms → Form m.2) :
    Form ("\x7b" ++ joinStrings ", " (ms.map member) ++ "\x7d")

theorem form_pair {t u : String} (ht : Form t) (hu : Form u) :
    Form ("[" ++ t ++ ", " ++ u ++ "]") := by
  have htext : "[" ++ t ++ ", " ++ u ++ "]" = "[" ++ joinStrings ", " [t, u] ++ "]" := by
    simp only [joinStrings, String.append_assoc]
  rw [htext]
  refine .list fun s hs => ?_
  rcases List.mem_cons.1 hs with rfl | hs
  · exact ht
  · exact List.mem_singleton.1 hs ▸ hu

mutual

/-- What a value is written as is put together from what its parts are written as. -/
theorem form_compact (v : Value) : ∀ text, compact v = .ok text → Form text := by
  match v with
  | .null =>
    intro _ h
    rw [compact] at h
    cases h
    exact .constant List.mem_cons_self
  | .bool b =>
    intro _ h
    rw [compact] at h
    cases h
    refine .constant ?_
    cases b with
    | true => decide
    | false => decide
  | .int i =>
    intro _ h
    rw [compact] at h
    generalize Number.digitsLimit = limit at h
    split at h
    next =>
      cases h
      exact .int i
    next => cases h
  | .float x =>
    intro _ h
    rw [compact] at h
    cases h
    exact .float x
  | .str s =>
    intro _ h
    rw [compact] at h
    cases h
    exact .string s
  | .list xs =>
    intro _ h
    rw [compact] at h
    obtain ⟨ts, hts, he⟩ := bind_eq_ok.1 h
    cases he
    exact .list (form_compactItems xs _ hts)
  | .pair k v =>
    intro _ h
    rw [compact] at h
    obtain ⟨t, ht, h⟩ := bind_eq_ok.1 h
    obtain ⟨u, hu, he⟩ := bind_eq_ok.1 h
    cases he
    exact form_pair (form_compact k _ ht) (form_compact v _ hu)
  | .map es =>
    intro _ h
    rw [compact] at h
    obtain ⟨ts, hts, he⟩ := bind_eq_ok.1 h
    cases he
    obtain ⟨ms, hms, rfl⟩ := form_compactEntries es _ hts
    exact .map hms
  | .knot _ v =>
    intro _ h
    rw [compact] at h
    exact form_compact v _ h
  | .bytes _ | .set _ | .moment _ | .endless =>
    intro _ h
    rw [compact] at h
    cases h

theorem form_compactItems (xs : List Value) :
    ∀ ts, compactItems xs = .ok ts → ∀ t, t ∈ ts → Form t := by
  match xs with
  | [] =>
    intro _ h
    rw [compactItems] at h
    cases h
    exact fun t ht => absurd ht List.not_mem_nil
  | x :: xs =>
    intro _ h
    rw [compactItems] at h
    obtain ⟨u, hu, h⟩ := bind_eq_ok.1 h
    obtain ⟨us, hus, he⟩ := bind_eq_ok.1 h
    cases he
    exact List.forall_mem_cons.2 ⟨form_compact x _ hu, form_compactItems xs _ hus⟩

theorem form_compactEntries (es : List (Value × Value)) :
    ∀ ts, compactEntries es = .ok ts →
      ∃ ms : List (String × String), (∀ m, m ∈ ms → Form m.2) ∧ ts = ms.map member := by
  match es with
  | [] =>
    intro _ h
    rw [compactEntries] at h
    cases h
    exact ⟨[], fun m hm => absurd hm List.not_mem_nil, rfl⟩
  | (k, v) :: es =>
    intro _ h
    rw [compactEntries] at h
    obtain ⟨name, -, h⟩ := bind_eq_ok.1 h
    obtain ⟨u, hu, h⟩ := bind_eq_ok.1 h
    obtain ⟨us, hus, he⟩ := bind_eq_ok.1 h
    cases he
    obtain ⟨ms, hms, rfl⟩ := form_compactEntries es _ hus
    exact ⟨(name, u) :: ms, List.forall_mem_cons.2 ⟨form_compact v _ hu, hms⟩, rfl⟩

end

end TypedClients.Json
