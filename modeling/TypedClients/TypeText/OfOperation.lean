import TypedClients.Schema.Index
import TypedClients.TypeText.OfSchema

/-!
# The type expression of a request or an answer

What an operation is sent or answers is written with its outermost reference replaced by what
it refers to; references are followed through list items and composition members, and kept as
names inside properties. A reference that is met again while it is being followed is kept as a
name, which ends cycles; one that leads nowhere is kept as a name with a warning.

Mirrors `render_operation_schema`. `renderFollowing` is `render_operation_schema` with the
references it is inside of; it ends since a reference is followed once only.
-/

namespace TypedClients

open TypeText (arrayOf compose withNull)

namespace SchemaIndex

/-- All references that lead somewhere. -/
def keys (index : SchemaIndex) : List String :=
  index.entries.flatMap fun e => [e.1, index.base ++ e.1]

/-- How many references have not been followed yet. -/
def unseen (index : SchemaIndex) (seen : List String) : Nat :=
  (index.keys.filter fun k => !seen.contains k).length

theorem mem_keys_of_lookup? {index : SchemaIndex} {ref : String} {s : Schema}
    (h : index.lookup? ref = some s) : ref ∈ index.keys := by
  obtain ⟨name, hmem, hn⟩ := lookup?_eq_some h
  simp only [names, Bool.or_eq_true, beq_iff_eq] at hn
  refine List.mem_flatMap.2 ⟨_, hmem, ?_⟩
  rcases hn with rfl | rfl <;> simp

theorem length_filter_lt {l seen : List String} {a : String} (ha : a ∈ l) (hs : a ∉ seen) :
    (l.filter fun k => !(a :: seen).contains k).length <
      (l.filter fun k => !seen.contains k).length := by
  have hsub : (l.filter fun k => !(a :: seen).contains k) =
      (l.filter fun k => !seen.contains k).filter fun k => !decide (k = a) := by
    rw [List.filter_filter]
    congr 1
    funext k
    simp
  rw [hsub]
  refine List.length_filter_lt_length_iff_exists.2 ⟨a, ?_, by simp⟩
  exact List.mem_filter.2 ⟨ha, by simpa using hs⟩

theorem unseen_lt {index : SchemaIndex} {seen : List String} {ref : String} {s : Schema}
    (h : index.lookup? ref = some s) (hs : ref ∉ seen) :
    index.unseen (ref :: seen) < index.unseen seen :=
  length_filter_lt (mem_keys_of_lookup? h) hs

/-- How much can be written at most: a text of some size, and a definition for every reference
that has not been followed yet. -/
noncomputable def effort (index : SchemaIndex) (seen : List String) (size : Nat) : Nat :=
  index.unseen seen * sizeOf index.entries + size

theorem effort_lt {index : SchemaIndex} {seen : List String} {size size' : Nat} (h : size < size') :
    index.effort seen size < index.effort seen size' := Nat.add_lt_add_left h _

theorem sizeOf_lookup?_lt {index : SchemaIndex} {ref : String} {s : Schema}
    (h : index.lookup? ref = some s) : sizeOf s < sizeOf index.entries := by
  obtain ⟨name, hmem, -⟩ := lookup?_eq_some h
  have hentry := List.sizeOf_lt_of_mem hmem
  simp only [Prod.mk.sizeOf_spec] at hentry
  omega

theorem effort_follow_lt {index : SchemaIndex} {seen : List String} {ref : String} {s : Schema}
    {size : Nat} (h : index.lookup? ref = some s) (hs : ref ∉ seen) :
    index.effort (ref :: seen) (sizeOf s) < index.effort seen size := by
  have hsize := sizeOf_lookup?_lt h
  have hfewer := Nat.mul_le_mul_right (sizeOf index.entries) (unseen_lt h hs)
  rw [Nat.succ_mul] at hfewer
  unfold effort
  omega

end SchemaIndex

namespace Schema

/-- A schema written as by `render`, as a step that may fail. -/
def rendered (names : Ordered String) (s : Schema) : Checked String :=
  Checked.ofExcept (s.render names)

mutual

/-- The type expression of a schema with its outer references followed (the recursion of
`render_operation_schema`). `seen` holds the references that are being followed. -/
def renderFollowing (index : SchemaIndex) (names : Ordered String) (seen : List String)
    (s : Schema) : Checked String :=
  match s with
  | reference ref n =>
    match _h : index.lookup? ref with
    | none => do
      discard <| Checked.logged (index.resolve ref)
      Checked.warn .types ("Cannot resolve $ref '" ++ ref ++ "'; using " ++
        referenceName names ref ++ " as a forward reference")
      (reference ref n).rendered names
    | some body =>
      if _hs : ref ∈ seen then (reference ref n).rendered names
      else do return withNull n (← renderFollowing index names (ref :: seen) body)
  | array items n => do return withNull n (arrayOf (← renderFollowing index names seen items))
  | composite mode members n => do
    return withNull n (compose mode (← renderFollowingMembers index names seen members))
  | s => s.rendered names
termination_by index.effort seen (sizeOf s)
decreasing_by
  · exact SchemaIndex.effort_follow_lt _h _hs
  · exact SchemaIndex.effort_lt (by simp only [array.sizeOf_spec]; omega)
  · exact SchemaIndex.effort_lt (by simp only [composite.sizeOf_spec]; omega)

/-- The type expressions of composition members with their outer references followed. -/
def renderFollowingMembers (index : SchemaIndex) (names : Ordered String) (seen : List String)
    (ms : List Schema) : Checked (List String) :=
  match ms with
  | [] => return []
  | m :: rest => do
    return (← renderFollowing index names seen m) ::
      (← renderFollowingMembers index names seen rest)
termination_by index.effort seen (sizeOf ms)
decreasing_by
  · exact SchemaIndex.effort_lt (by simp only [List.cons.sizeOf_spec]; omega)
  · exact SchemaIndex.effort_lt (by simp only [List.cons.sizeOf_spec]; omega)

end

/-- The type expression of what an operation is sent or answers (`render_operation_schema`). -/
def renderOperation (index : SchemaIndex) (names : Ordered String) (s : Schema) : Checked String :=
  renderFollowing index names [] s

end Schema

end TypedClients
