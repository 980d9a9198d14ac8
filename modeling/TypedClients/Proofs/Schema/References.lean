import Mathlib.Data.List.Nodup
import Mathlib.Data.List.TakeWhile
import TypedClients.Proofs.Report.Outcome
import TypedClients.Types.Definitions

/-!
# The references of a schema and where they lead

Writing a schema looks at its table of names only where a reference stands (`render_congr`),
so what a reference is written as is all that a change of names can change.

A reference leads to a definition in steps: it names a definition, and as long as that is an
alias, the alias names the next one. `SchemaIndex.Leads` records the aliases on the way, which
ends at a definition of the index (`Leads.end_mem`).

A reference is written by its last segment alone. If the name of the definition has no slash, this
segment is the name (`refName_of_definition?`), and the definition is also found under its bare
name (`definition?_bare`).
-/

namespace TypedClients

namespace Schema

mutual

/-- The references that are written when a schema is, in the order of writing. -/
def references : Schema → List String
  | primitive _ _ _ _ => []
  | array items _ => items.references
  | object properties _ _ _ => referencesOfProperties properties
  | dictionary _ none _ => []
  | dictionary _ (some s) _ => s.references
  | composite _ members _ => referencesOfMembers members
  | reference ref _ => [ref]

/-- The references that are written for the members of a composition. -/
def referencesOfMembers : List Schema → List String
  | [] => []
  | m :: ms => m.references ++ referencesOfMembers ms

/-- The references that are written for properties. -/
def referencesOfProperties : List (String × Schema) → List String
  | [] => []
  | (_, p) :: ps => p.references ++ referencesOfProperties ps

end

/-- The references of members are those of each of them. -/
theorem mem_referencesOfMembers {ms : List Schema} {ref : String} :
    ref ∈ referencesOfMembers ms ↔ ∃ m, m ∈ ms ∧ ref ∈ m.references := by
  induction ms with
  | nil => simp only [referencesOfMembers, List.not_mem_nil, false_and, exists_false]
  | cons m rest ih => simp only [referencesOfMembers, List.mem_append, ih, List.exists_mem_cons_iff]

variable {names names' : Ordered String}

mutual

/-- A schema is written alike under two tables of names that write its references alike. -/
theorem render_congr : ∀ s : Schema,
    (∀ ref, ref ∈ s.references → referenceName names ref = referenceName names' ref) →
      s.render names = s.render names'
  | primitive _ _ none _, _ => rfl
  | primitive _ _ (some []) _, _ => rfl
  | primitive _ _ (some (_ :: _)) _, _ => rfl
  | array items _, h => by
    rw [render, render, render_congr items h]
  | object [] _ _ _, _ => rfl
  | object (p :: ps) required _ _, h => by
    rw [render, render, renderProperties_congr required (p :: ps) h]
  | dictionary _ none _, _ => rfl
  | dictionary _ (some s) _, h => by
    rw [render, render, render_congr s h]
  | composite _ members _, h => by
    rw [render, render, renderMembers_congr members h]
  | reference ref _, h => by
    rw [render, render, h ref (List.mem_singleton.2 rfl)]

/-- Members of a composition are written alike if their references are. -/
theorem renderMembers_congr : ∀ ms : List Schema,
    (∀ ref, ref ∈ referencesOfMembers ms → referenceName names ref = referenceName names' ref) →
      renderMembers names ms = renderMembers names' ms
  | [], _ => rfl
  | m :: ms, h => by
    have hm := render_congr m fun ref hr => h ref (List.mem_append_left _ hr)
    have hms := renderMembers_congr ms fun ref hr => h ref (List.mem_append_right _ hr)
    rw [renderMembers, renderMembers, hm, hms]

/-- Properties are written alike if their references are. -/
theorem renderProperties_congr (required : List String) : ∀ ps : List (String × Schema),
    (∀ ref, ref ∈ referencesOfProperties ps → referenceName names ref = referenceName names' ref) →
      renderProperties names required ps = renderProperties names' required ps
  | [], _ => rfl
  | (_, p) :: ps, h => by
    have hp := render_congr p fun ref hr => h ref (List.mem_append_left _ hr)
    have hps := renderProperties_congr required ps fun ref hr => h ref (List.mem_append_right _ hr)
    rw [renderProperties, renderProperties, hp, hps]

end

/-- A schema is written alike under two tables with the same names in them. -/
theorem render_congr_get? (s : Schema) (h : ∀ n, names.get? n = names'.get? n) :
    s.render names = s.render names' :=
  render_congr s fun ref _ => by rw [referenceName, referenceName, h]

/-! ## The last segment of a reference -/

/-- What a reference ends in does not depend on what stands ahead of a slash. -/
theorem refName_append (start name : String) : refName (start ++ "/" ++ name) = refName name := by
  have hslash : ("/" : String).toList = ['/'] := rfl
  rw [refName, refName, Text.afterLast, Text.afterLast, String.toList_append, String.toList_append,
    hslash, List.reverse_append, List.reverse_append, List.reverse_singleton,
    List.singleton_append, List.takeWhile_append]
  -- the slash before the name is where the search from the end stops at the latest
  split
  next hall =>
    have hname := (List.takeWhile_prefix _).eq_of_length hall
    rw [hname, List.takeWhile_cons_of_neg (by decide), List.append_nil]
  next => rfl

theorem refName_of_not_mem {name : String} (h : '/' ∉ name.toList) : refName name = name := by
  have hall : ∀ c ∈ name.toList.reverse, (decide (c ≠ '/')) = true := by
    intro c hc
    exact decide_eq_true fun e => h (e ▸ List.mem_reverse.1 hc)
  rw [refName, Text.afterLast, List.takeWhile_eq_self_iff.2 hall, List.reverse_reverse,
    String.ofList_toList]

theorem not_mem_refName (ref : String) : '/' ∉ (refName ref).toList := by
  intro hmem
  rw [refName, Text.afterLast, String.toList_ofList, List.mem_reverse] at hmem
  exact absurd (List.mem_takeWhile_imp hmem) (by decide)

/-- The name at the end of a reference is the definition's, if that has no slash in it. -/
theorem refName_append_slash {start name : String} (h : '/' ∉ name.toList) :
    refName (start ++ "/" ++ name) = name := by
  rw [refName_append, refName_of_not_mem h]

end Schema

/-! ## The way of a reference -/

namespace SchemaIndex

open Definitions (isAlias)
open Schema (refName)

variable {index : SchemaIndex}

/-- The definition that a reference names. -/
def definition? (index : SchemaIndex) (ref : String) : Option (String × Schema) :=
  index.entries.reverse.find? fun e => index.names e.1 ref

/-- A reference leads to a definition that is no alias, past the aliases of a list. -/
inductive Leads (index : SchemaIndex) : String → List String → String → Prop
  | here {ref d : String} {s : Schema} (h : index.definition? ref = some (d, s))
      (hs : isAlias s = false) : Leads index ref [] d
  | past {ref a next d : String} {n : Bool} {as : List String}
      (h : index.definition? ref = some (a, .reference next n)) (hd : Leads index next as d) :
      Leads index ref (a :: as) d

/-- The index of a document: its definitions have distinct names, and full references to them
begin with a text that ends in a slash. -/
structure Proper (index : SchemaIndex) : Prop where
  nodup : (index.entries.map Prod.fst).Nodup
  base : ∃ start, index.base = start ++ "/"

theorem map_fst_entriesOf {definitions : List (String × Value)} {entries : List (String × Schema)}
    (h : entriesOf definitions = .ok entries) :
    entries.map Prod.fst = definitions.map Prod.fst := by
  induction definitions generalizing entries with
  | nil =>
    cases h
    rfl
  | cons d rest ih =>
    obtain ⟨name, v⟩ := d
    rw [entriesOf] at h
    obtain ⟨s, -, h⟩ := bind_eq_ok.1 h
    obtain ⟨others, hothers, h⟩ := bind_eq_ok.1 h
    cases h
    rw [List.map_cons, List.map_cons, ih hothers]

/-- The definitions of a document are an object, so their names are distinct. -/
theorem proper_ofDocument {d : Document} (h : ofDocument d = .ok index)
    (hnodup : (d.definitions.map Prod.fst).Nodup) : index.Proper := by
  rw [ofDocument] at h
  obtain ⟨entries, hentries, h⟩ := bind_eq_ok.1 h
  cases h
  refine ⟨?_, ?_⟩
  · rw [map_fst_entriesOf hentries]
    exact hnodup
  · cases d.family with
    | swagger2 => exact ⟨"#/definitions", rfl⟩
    | openapi3 => exact ⟨"#/components/schemas", rfl⟩

theorem lookup?_eq (ref : String) :
    index.lookup? ref = (index.definition? ref).map Prod.snd := rfl

theorem mem_of_definition? {ref : String} {e : String × Schema}
    (h : index.definition? ref = some e) : e ∈ index.entries :=
  List.mem_reverse.1 (List.mem_of_find?_eq_some h)

theorem Proper.eq_of_mem (hp : index.Proper) {name : String} {s s' : Schema}
    (h : (name, s) ∈ index.entries) (h' : (name, s') ∈ index.entries) : s = s' :=
  congrArg Prod.snd (List.inj_on_of_nodup_map hp.nodup h h' rfl)

/-- What a reference leads to is a definition that is no alias. -/
theorem Leads.end_mem {ref d : String} {as : List String} (h : index.Leads ref as d) :
    ∃ s, (d, s) ∈ index.entries ∧ isAlias s = false := by
  induction h with
  | here hf hs => exact ⟨_, mem_of_definition? hf, hs⟩
  | past _ _ ih => exact ih

/-- A reference to a definition without a slash in its name ends in that name. -/
theorem refName_of_definition? (hp : index.Proper) {ref name : String} {s : Schema}
    (h : index.definition? ref = some (name, s)) (hn : '/' ∉ name.toList) :
    refName ref = name := by
  have hnames : index.names name ref = true := by simpa using List.find?_some h
  rw [names, Bool.or_eq_true, beq_iff_eq, beq_iff_eq] at hnames
  rcases hnames with rfl | rfl
  · exact Schema.refName_of_not_mem hn
  · obtain ⟨start, hstart⟩ := hp.base
    rw [hstart]
    exact Schema.refName_append_slash hn

/-- A definition without a slash in its name is found under its bare name. -/
theorem definition?_bare (hp : index.Proper) {name : String} {s : Schema}
    (h : (name, s) ∈ index.entries) (hn : '/' ∉ name.toList) :
    index.definition? name = some (name, s) := by
  cases hf : index.definition? name with
  | none =>
    rw [definition?, List.find?_eq_none] at hf
    exact absurd (hf _ (List.mem_reverse.2 h)) (by simp [names])
  | some e =>
    obtain ⟨other, s'⟩ := e
    have hnames : index.names other name = true := by simpa using List.find?_some hf
    rw [names, Bool.or_eq_true, beq_iff_eq, beq_iff_eq] at hnames
    rcases hnames with rfl | rfl
    · rw [hp.eq_of_mem (mem_of_definition? hf) h]
    · obtain ⟨start, hstart⟩ := hp.base
      refine absurd ?_ hn
      simp [hstart]

end SchemaIndex

end TypedClients
