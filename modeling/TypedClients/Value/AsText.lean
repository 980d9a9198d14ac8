import TypedClients.Report.Failure
import TypedClients.Value.Same

/-!
# Values that stand for texts

Where a model asks for a text, bytes count as the text that they encode in UTF-8. This holds
for fields and for the keys of tables.

* `textKeyed_eq_self`: entries without bytes as keys are left as they are.
* `mem_named`: of such entries exactly those under a string are named.
-/

namespace TypedClients.Value

/-- The text that a value stands for, or what is wrong with it. -/
def asText (v : Value) : Except Complaint String :=
  match v with
  | str s => .ok s
  | bytes bs => (String.fromUTF8? ⟨bs.toArray⟩).elim (.error .notUnicode) .ok
  | _ => .error .notAString

/-- Whether a value is bytes. -/
def isBytes : Value → Bool
  | bytes _ => true
  | _ => false

/-- The string that bytes encode; any other value as it is. -/
def decoded (v : Value) : Value :=
  match v.asText with
  | .ok s => str s
  | .error _ => v

/-! ## Tables with texts as keys -/

/-- Entries with bytes decoded in their keys. If two keys become one, the last value counts,
at the place of the first. -/
def textKeyed {α : Type} (entries : List (Value × α)) : List (Value × α) :=
  if entries.any (·.1.isBytes) then entries.foldl (fun es (k, a) => upsert k.decoded a es) []
  else entries

/-- The entries under texts, by these texts. -/
def named {α : Type} (entries : List (Value × α)) : List (String × α) :=
  (textKeyed entries).filterMap fun (k, a) => k.str?.map (·, a)

/-- The step into a map at a key, as issues name it. -/
def keyStep : Value → Step
  | str s => .field s
  | bool b => .index (if b then 1 else 0)
  | int i => if i.natAbs < Number.wordLimit then .index i else .field (Number.intText i)
  | v => .field v.inner

/-- The issues of a map under a field whose keys should all be texts. -/
def keyIssues {α : Type} (field : String) (entries : List (Value × α)) : List Issue :=
  entries.filterMap fun (k, _) =>
    match k.asText with
    | .ok _ => none
    | .error complaint => some ⟨[.field field, k.keyStep, .field "[key]"], complaint⟩

theorem textKeyed_eq_self {α : Type} {entries : List (Value × α)}
    (h : ∀ e ∈ entries, e.1.isBytes = false) : textKeyed entries = entries := by
  have : entries.any (·.1.isBytes) = false := List.any_eq_false.2 fun e he => by simp [h e he]
  simp [textKeyed, this]

theorem mem_named {α : Type} {entries : List (Value × α)} {name : String} {a : α}
    (h : ∀ e ∈ entries, e.1.isBytes = false) :
    (name, a) ∈ named entries ↔ (str name, a) ∈ entries := by
  simp only [named, textKeyed_eq_self h, List.mem_filterMap, Option.map_eq_some_iff, Prod.exists]
  constructor
  · rintro ⟨k, b, hmem, s, hs, he⟩
    obtain ⟨rfl, rfl⟩ := Prod.mk.inj he
    cases k <;> simp_all [str?]
  · intro hmem
    exact ⟨str name, a, hmem, name, rfl, rfl⟩

end TypedClients.Value
