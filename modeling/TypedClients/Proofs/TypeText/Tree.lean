import Mathlib.Data.List.Forall2
import Mathlib.Data.List.Induction
import TypedClients.TypeText.OfSchema

/-!
# The type that a schema stands for

A `TypeTree` is a type expression without its spelling: no parentheses, no blanks, no quotes
around keys. `Schema.denote` says which tree a schema stands for.

Nested unions and intersections are the same as flat ones, and in a union null counts once.
`normal` flattens a tree in this way, and two trees are the `Same` if their normal forms are
equal.

* `Same.unionOf_append`, `Same.interOf_append`: lists of alternatives or operands may be cut
  anywhere.
* `Same.union_null`: a union that has null already is the same with one more.
-/

namespace TypedClients

/-- A type expression. Atoms are kept as they are written. -/
inductive TypeTree where
  | atom (text : String)
  | array (item : TypeTree)
  /-- A dictionary whose values have one type. -/
  | record (value : TypeTree)
  /-- An object with its properties in order: the name, whether it is optional, the type. -/
  | object (members : List (String × Bool × TypeTree))
  | union (a b : TypeTree)
  | inter (a b : TypeTree)
  deriving Inhabited

namespace TypeTree

/-- The type of null. -/
def null : TypeTree := atom "null"

/-- Whether a type is just null. -/
def isNull : TypeTree → Bool
  | atom text => text = "null"
  | _ => false

/-- The union of types; without any it is the type of no value. -/
def unionOf : List TypeTree → TypeTree
  | [] => atom "never"
  | [a] => a
  | a :: b :: rest => union a (unionOf (b :: rest))

/-- The intersection of types; without any it is the type of all values. -/
def interOf : List TypeTree → TypeTree
  | [] => atom "unknown"
  | [a] => a
  | a :: b :: rest => inter a (interOf (b :: rest))

/-- The alternatives of a type. -/
def alternatives : TypeTree → List TypeTree
  | union a b => a.alternatives ++ b.alternatives
  | t => [t]

/-- The operands of an intersection. -/
def operands : TypeTree → List TypeTree
  | inter a b => a.operands ++ b.operands
  | t => [t]

/-- Alternatives without any null after the first one. -/
def nullOnce : List TypeTree → List TypeTree
  | [] => []
  | a :: rest => if a.isNull then a :: rest.filter (!·.isNull) else a :: nullOnce rest

mutual

/-- A type with unions and intersections flattened, and null once in every union. -/
def normal : TypeTree → TypeTree
  | atom text => atom text
  | array item => array item.normal
  | record value => record value.normal
  | object members => object (normalMembers members)
  | union a b => unionOf (nullOnce (a.normal.alternatives ++ b.normal.alternatives))
  | inter a b => interOf (a.normal.operands ++ b.normal.operands)

/-- Members with their types flattened. -/
def normalMembers : List (String × Bool × TypeTree) → List (String × Bool × TypeTree)
  | [] => []
  | (name, optional, t) :: rest => (name, optional, t.normal) :: normalMembers rest

end

/-- Two types are the same but for flattening and repeated null. -/
def Same (s t : TypeTree) : Prop := s.normal = t.normal

/-- The composition of types; without any it is the type of all values. -/
def composed (mode : Composition) (members : List TypeTree) : TypeTree :=
  match members with
  | [] => atom "unknown"
  | _ =>
    match mode with
    | .allOf => interOf members
    | .oneOf | .anyOf => unionOf members

/-- A literal as it is written, which is an atom; but an empty JSON object is the object type
without members. -/
def literal (text : String) : TypeTree := if text = "\x7b\x7d" then object [] else atom text

/-- A type that also admits null, if asked for. -/
def orNull (nullable : Bool) (t : TypeTree) : TypeTree := if nullable then union t null else t

end TypeTree

/-! ## Schemas -/

namespace Schema

open TypeTree (composed orNull unionOf)

/-- The type of a scalar. -/
def scalarType : Option String → TypeTree
  | some "string" => .atom "string"
  | some "integer" => .atom "number"
  | some "number" => .atom "number"
  | some "boolean" => .atom "boolean"
  | some "null" => .null
  | some "file" => .atom "File"
  | _ => .atom "unknown"

/-- A text as it stands between single quotes. -/
def escaped : List Char → List Char
  | [] => []
  | c :: rest => if c = '\x27' ∨ c = '\\' then '\\' :: c :: escaped rest else c :: escaped rest

/-- The type of a literal value: a string in single quotes, or a JSON text. An empty JSON
object is the object type without members. -/
def literalType : Value → Except Failure TypeTree
  | .str s => .ok (.atom ("'" ++ String.ofList (escaped s.toList) ++ "'"))
  | v =>
    match Json.compact v with
    | .ok "\x7b\x7d" => .ok (.object [])
    | .ok text => .ok (.atom text)
    | .error m => .error (.mishap m)

/-- The last segment of a reference. -/
def segment (ref : String) : String :=
  String.ofList (ref.toList.foldl (fun part c => if c = '/' then [] else part ++ [c]) [])

/-- The type that a reference stands for: its segment is mapped to a name, or is turned into
one. -/
def referenceType (names : Ordered String) (ref : String) : TypeTree :=
  match names.lookup (segment ref) with
  | some name => .atom name
  | none => .atom (Naming.typeName (segment ref))

mutual

/-- The type that a schema stands for. -/
def denote (names : Ordered String) : Schema → Except Failure TypeTree
  | primitive type _ values n =>
    match values with
    | none | some [] => .ok (orNull n (scalarType type))
    | some vs => do return orNull n (unionOf (← vs.mapM literalType))
  | array items n => do return orNull n (.array (← items.denote names))
  | object properties required _ n => do
    return orNull n (.object (← denoteProperties names required properties))
  | dictionary _ none n => .ok (orNull n (.record (.atom "unknown")))
  | dictionary _ (some s) n => do return orNull n (.record (← s.denote names))
  | composite mode members n => do
    return orNull n (composed mode (← denoteMembers names members))
  | reference ref n => .ok (orNull n (referenceType names ref))

/-- The types that schemas stand for. -/
def denoteMembers (names : Ordered String) : List Schema → Except Failure (List TypeTree)
  | [] => .ok []
  | m :: ms => do return (← m.denote names) :: (← denoteMembers names ms)

/-- The members that properties stand for, in the same order. -/
def denoteProperties (names : Ordered String) (required : List String) :
    List (String × Schema) → Except Failure (List (String × Bool × TypeTree))
  | [] => .ok []
  | (name, p) :: ps => do
    return (name, !required.contains name, ← p.denote names) ::
      (← denoteProperties names required ps)

end

/-! ### Leaves -/

theorem scalarType_eq (type : Option String) : scalarType type = .atom (scalarName type) := by
  unfold scalarType
  split
  iterate 6 rfl
  next hstring hinteger hnumber hboolean hnull hfile =>
    have hnone : scalarNames.find? (some ·.1 = type) = none := by
      rw [List.find?_eq_none]
      simp only [scalarNames, List.forall_mem_cons, decide_eq_true_eq]
      exact ⟨fun h => hstring h.symm, fun h => hinteger h.symm, fun h => hnumber h.symm,
        fun h => hboolean h.symm, fun h => hnull h.symm, fun h => hfile h.symm,
        fun e he => absurd he List.not_mem_nil⟩
    rw [scalarName, hnone]
    rfl

theorem escaped_eq (s : List Char) : escaped s = s.flatMap Naming.quotedChar := by
  induction s with
  | nil => rfl
  | cons c rest ih =>
    rw [escaped, List.flatMap_cons, Naming.quotedChar, ih]
    simp only [or_comm]
    split
    · rfl
    · rfl

theorem literalType_eq_ok {v : Value} {text : String} (h : literal v = .ok text) :
    literalType v = .ok (TypeTree.literal text) := by
  unfold literal at h
  split at h
  next s =>
    cases h
    have hquoted : "'" ++ String.ofList (escaped s.toList) ++ "'" = Naming.singleQuoted s := by
      rw [escaped_eq, Naming.singleQuoted, ← String.toList_inj]
      simp
    have hopen : Naming.singleQuoted s ≠ "\x7b\x7d" := by
      intro heq
      have hhead := congrArg (fun t => t.toList.head?) heq
      simp [Naming.singleQuoted] at hhead
    rw [literalType, hquoted, TypeTree.literal, if_neg hopen]
  next v hv =>
    rw [literalType]
    · split at h
      next t ht =>
        cases h
        rw [ht, TypeTree.literal]
        split
        next heq => rw [if_pos (Except.ok.inj heq)]
        next hne heq =>
          cases heq
          rw [if_neg hne]
        next he => cases he
      next => cases h
    · exact hv

theorem segment_eq (ref : String) : segment ref = refName ref := by
  rw [segment, refName, Text.afterLast]
  refine congrArg String.ofList ?_
  induction ref.toList using List.reverseRecOn with
  | nil => rfl
  | append_singleton s c ih =>
    rw [List.foldl_append, ih, List.reverse_append]
    by_cases hc : c = '/'
    · simp [hc]
    · simp [hc]

theorem referenceType_eq (names : Ordered String) (ref : String) :
    referenceType names ref = .atom (referenceName names ref) := by
  have hlookup : names.lookup (refName ref) = names.get? (refName ref) := by
    rw [Ordered.get?]
    induction names with
    | nil => rfl
    | cons e names ih =>
      obtain ⟨n, name⟩ := e
      by_cases hn : n = refName ref
      · simp [hn]
      · have hb : (refName ref == n) = false := by simpa using Ne.symm hn
        simp [List.lookup_cons, hn, ih, hb]
  rw [referenceType, segment_eq, hlookup, referenceName]
  cases names.get? (refName ref) with
  | none => rfl
  | some name => rfl

end Schema

namespace TypeTree

/-! ## Equations -/

theorem unionOf_cons_cons (a b : TypeTree) (l : List TypeTree) :
    unionOf (a :: b :: l) = union a (unionOf (b :: l)) := rfl

theorem interOf_cons_cons (a b : TypeTree) (l : List TypeTree) :
    interOf (a :: b :: l) = inter a (interOf (b :: l)) := rfl

theorem alternatives_union (a b : TypeTree) :
    (union a b).alternatives = a.alternatives ++ b.alternatives := rfl

theorem operands_inter (a b : TypeTree) :
    (inter a b).operands = a.operands ++ b.operands := rfl

theorem nullOnce_cons (a : TypeTree) (l : List TypeTree) :
    nullOnce (a :: l) = if a.isNull then a :: l.filter (!·.isNull) else a :: nullOnce l := rfl

theorem normal_null : null.normal = null := rfl

theorem normal_array (t : TypeTree) : (array t).normal = array t.normal := rfl

theorem normal_record (t : TypeTree) : (record t).normal = record t.normal := rfl

theorem normal_object (ms : List (String × Bool × TypeTree)) :
    (object ms).normal = object (normalMembers ms) := rfl

theorem normal_union (a b : TypeTree) : (union a b).normal =
    unionOf (nullOnce (a.normal.alternatives ++ b.normal.alternatives)) := rfl

theorem normal_inter (a b : TypeTree) :
    (inter a b).normal = interOf (a.normal.operands ++ b.normal.operands) := rfl

/-! ## Flattening -/

theorem alternatives_ne_nil (t : TypeTree) : t.alternatives ≠ [] := by
  induction t using alternatives.induct with
  | case1 a b iha _ =>
    rw [alternatives_union]
    exact fun h => iha (List.append_eq_nil_iff.1 h).1
  | case2 t hne =>
    rw [alternatives]
    · exact List.cons_ne_nil _ _
    · exact hne

theorem operands_ne_nil (t : TypeTree) : t.operands ≠ [] := by
  induction t using operands.induct with
  | case1 a b iha _ =>
    rw [operands_inter]
    exact fun h => iha (List.append_eq_nil_iff.1 h).1
  | case2 t hne =>
    rw [operands]
    · exact List.cons_ne_nil _ _
    · exact hne

/-- An alternative is no union itself. -/
theorem alternatives_of_mem {s t : TypeTree} (h : s ∈ t.alternatives) : s.alternatives = [s] := by
  induction t using alternatives.induct with
  | case1 a b iha ihb =>
    rw [alternatives_union, List.mem_append] at h
    exact h.elim iha ihb
  | case2 t hne =>
    have hself : t.alternatives = [t] := by
      rw [alternatives]
      exact hne
    rw [hself, List.mem_singleton] at h
    rw [h, hself]

theorem operands_of_mem {s t : TypeTree} (h : s ∈ t.operands) : s.operands = [s] := by
  induction t using operands.induct with
  | case1 a b iha ihb =>
    rw [operands_inter, List.mem_append] at h
    exact h.elim iha ihb
  | case2 t hne =>
    have hself : t.operands = [t] := by
      rw [operands]
      exact hne
    rw [hself, List.mem_singleton] at h
    rw [h, hself]

theorem alternatives_unionOf {a : TypeTree} {l : List TypeTree}
    (h : ∀ b, b ∈ a :: l → b.alternatives = [b]) : (unionOf (a :: l)).alternatives = a :: l := by
  induction l generalizing a with
  | nil => exact h a List.mem_cons_self
  | cons b l ih =>
    rw [unionOf_cons_cons, alternatives_union, h a List.mem_cons_self,
      ih fun c hc => h c (List.mem_cons_of_mem _ hc), List.singleton_append]

theorem operands_interOf {a : TypeTree} {l : List TypeTree}
    (h : ∀ b, b ∈ a :: l → b.operands = [b]) : (interOf (a :: l)).operands = a :: l := by
  induction l generalizing a with
  | nil => exact h a List.mem_cons_self
  | cons b l ih =>
    rw [interOf_cons_cons, operands_inter, h a List.mem_cons_self,
      ih fun c hc => h c (List.mem_cons_of_mem _ hc), List.singleton_append]

/-! ## Null once -/

theorem mem_of_mem_nullOnce {a : TypeTree} {l : List TypeTree} (h : a ∈ nullOnce l) : a ∈ l := by
  induction l with
  | nil => exact h
  | cons b rest ih =>
    rw [nullOnce_cons] at h
    split at h
    · rcases List.mem_cons.1 h with rfl | h
      · exact List.mem_cons_self
      · exact List.mem_cons_of_mem _ (List.mem_filter.1 h).1
    · rcases List.mem_cons.1 h with rfl | h
      · exact List.mem_cons_self
      · exact List.mem_cons_of_mem _ (ih h)

theorem nullOnce_ne_nil {l : List TypeTree} (h : l ≠ []) : nullOnce l ≠ [] := by
  cases l with
  | nil => exact absurd rfl h
  | cons a rest =>
    rw [nullOnce_cons]
    split
    · exact List.cons_ne_nil _ _
    · exact List.cons_ne_nil _ _

/-- What is left of alternatives without any null. -/
theorem filter_nullOnce (l : List TypeTree) :
    (nullOnce l).filter (!·.isNull) = l.filter (!·.isNull) := by
  induction l with
  | nil => rfl
  | cons a rest ih =>
    rw [nullOnce_cons]
    split
    next h => simp [h]
    next h => rw [List.filter_cons, List.filter_cons, ih]

theorem nullOnce_append (l l' : List TypeTree) :
    nullOnce (l ++ l') =
      nullOnce l ++ if l.any isNull then l'.filter (!·.isNull) else nullOnce l' := by
  induction l with
  | nil => rfl
  | cons a rest ih =>
    rw [List.cons_append, nullOnce_cons, nullOnce_cons, List.any_cons]
    split
    next h => rw [h, Bool.true_or, if_pos rfl, List.filter_append, List.cons_append]
    next h => rw [Bool.eq_false_iff.2 h, Bool.false_or, ih, List.cons_append]

theorem any_isNull_nullOnce (l : List TypeTree) : (nullOnce l).any isNull = l.any isNull := by
  induction l with
  | nil => rfl
  | cons a rest ih =>
    rw [nullOnce_cons]
    split
    next h => rw [List.any_cons, List.any_cons, h, Bool.true_or, Bool.true_or]
    next h => rw [List.any_cons, List.any_cons, ih]

theorem nullOnce_idem (l : List TypeTree) : nullOnce (nullOnce l) = nullOnce l := by
  induction l with
  | nil => rfl
  | cons a rest ih =>
    rw [nullOnce_cons]
    split
    next h => rw [nullOnce_cons, if_pos h, List.filter_filter]; simp
    next h => rw [nullOnce_cons, if_neg h, ih]

theorem nullOnce_append_left (l l' : List TypeTree) :
    nullOnce (nullOnce l ++ l') = nullOnce (l ++ l') := by
  rw [nullOnce_append, nullOnce_append, nullOnce_idem, any_isNull_nullOnce]

theorem nullOnce_append_right (l l' : List TypeTree) :
    nullOnce (l ++ nullOnce l') = nullOnce (l ++ l') := by
  rw [nullOnce_append, nullOnce_append, filter_nullOnce, nullOnce_idem]

/-! ## Same types -/

variable {a a' b b' c : TypeTree}

theorem Same.trans (h : Same a b) (h' : Same b c) : Same a c := Eq.trans h h'

theorem Same.symm (h : Same a b) : Same b a := Eq.symm h

theorem Same.refl (a : TypeTree) : Same a a := rfl

theorem Same.array (h : Same a b) : Same (array a) (array b) := by
  rw [Same, normal_array, normal_array, h]

theorem Same.record (h : Same a b) : Same (record a) (record b) := by
  rw [Same, normal_record, normal_record, h]

/-- Members whose types are the same. -/
theorem Same.object {ms ms' : List (String × Bool × TypeTree)}
    (h : List.Forall₂ (fun m m' => m.1 = m'.1 ∧ m.2.1 = m'.2.1 ∧ Same m.2.2 m'.2.2) ms ms') :
    Same (object ms) (object ms') := by
  rw [Same, normal_object, normal_object]
  congr 1
  induction h with
  | nil => rfl
  | @cons m m' ms ms' hm _ ih =>
    obtain ⟨name, optional, t⟩ := m
    obtain ⟨name', optional', t'⟩ := m'
    obtain ⟨rfl, rfl, ht⟩ := hm
    rw [normalMembers, normalMembers, ih, ht]

theorem Same.union (h : Same a a') (h' : Same b b') : Same (union a b) (union a' b') := by
  rw [Same, normal_union, normal_union, h, h']

theorem Same.inter (h : Same a a') (h' : Same b b') : Same (inter a b) (inter a' b') := by
  rw [Same, normal_inter, normal_inter, h, h']

theorem alternatives_normal_union (a b : TypeTree) :
    (union a b).normal.alternatives =
      nullOnce (a.normal.alternatives ++ b.normal.alternatives) := by
  have hne : nullOnce (a.normal.alternatives ++ b.normal.alternatives) ≠ [] :=
    nullOnce_ne_nil fun h => alternatives_ne_nil _ (List.append_eq_nil_iff.1 h).1
  obtain ⟨c, l, hl⟩ := List.exists_cons_of_ne_nil hne
  rw [normal_union, hl]
  refine alternatives_unionOf fun d hd => ?_
  rcases List.mem_append.1 (mem_of_mem_nullOnce (hl ▸ hd)) with hd | hd
  · exact alternatives_of_mem hd
  · exact alternatives_of_mem hd

theorem operands_normal_inter (a b : TypeTree) :
    (inter a b).normal.operands = a.normal.operands ++ b.normal.operands := by
  have hne : a.normal.operands ++ b.normal.operands ≠ [] :=
    fun h => operands_ne_nil _ (List.append_eq_nil_iff.1 h).1
  obtain ⟨c, l, hl⟩ := List.exists_cons_of_ne_nil hne
  rw [normal_inter, hl]
  refine operands_interOf fun d hd => ?_
  rcases List.mem_append.1 (hl ▸ hd) with hd | hd
  · exact operands_of_mem hd
  · exact operands_of_mem hd

theorem Same.union_assoc (a b c : TypeTree) :
    Same (.union (.union a b) c) (.union a (.union b c)) := by
  -- both sides are the alternatives of all three in order, with null once
  rw [Same, normal_union (.union a b) c, alternatives_normal_union a b, normal_union a (.union b c),
    alternatives_normal_union b c, nullOnce_append_left, nullOnce_append_right, List.append_assoc]

theorem Same.inter_assoc (a b c : TypeTree) :
    Same (.inter (.inter a b) c) (.inter a (.inter b c)) := by
  rw [Same, normal_inter (.inter a b) c, operands_normal_inter a b, normal_inter a (.inter b c),
    operands_normal_inter b c, List.append_assoc]

/-- Alternatives in two lists are those in one. -/
theorem Same.unionOf_append {l l' : List TypeTree} (h : l ≠ []) (h' : l' ≠ []) :
    Same (unionOf (l ++ l')) (.union (unionOf l) (unionOf l')) := by
  obtain ⟨a, l, rfl⟩ := List.exists_cons_of_ne_nil h
  obtain ⟨b, l', rfl⟩ := List.exists_cons_of_ne_nil h'
  clear h h'
  induction l generalizing a with
  | nil => exact Same.refl _
  | cons c l ih => exact ((Same.refl a).union (ih c)).trans (Same.union_assoc _ _ _).symm

theorem Same.interOf_append {l l' : List TypeTree} (h : l ≠ []) (h' : l' ≠ []) :
    Same (interOf (l ++ l')) (.inter (interOf l) (interOf l')) := by
  obtain ⟨a, l, rfl⟩ := List.exists_cons_of_ne_nil h
  obtain ⟨b, l', rfl⟩ := List.exists_cons_of_ne_nil h'
  clear h h'
  induction l generalizing a with
  | nil => exact Same.refl _
  | cons c l ih => exact ((Same.refl a).inter (ih c)).trans (Same.inter_assoc _ _ _).symm

/-! ## Adding null -/

/-- A flattened type is the union of its alternatives. -/
theorem normal_eq_unionOf (t : TypeTree) :
    unionOf t.normal.alternatives = t.normal ∧
      nullOnce t.normal.alternatives = t.normal.alternatives := by
  -- all but a union are their own only alternative
  have hsingle : ∀ s : TypeTree, s.alternatives = [s] →
      unionOf s.alternatives = s ∧ nullOnce s.alternatives = s.alternatives := by
    intro s hs
    rw [hs]
    refine ⟨rfl, ?_⟩
    rw [nullOnce_cons]
    split
    · rfl
    · rfl
  cases t with
  | atom text => exact hsingle _ rfl
  | array item => exact hsingle _ rfl
  | record value => exact hsingle _ rfl
  | object members => exact hsingle _ rfl
  | inter a b =>
    -- an intersection has two operands at least
    obtain ⟨c, l, hl⟩ := List.exists_cons_of_ne_nil (operands_ne_nil a.normal)
    obtain ⟨d, l', hl'⟩ := List.exists_cons_of_ne_nil (operands_ne_nil b.normal)
    refine hsingle _ ?_
    rw [normal_inter, hl, hl', List.cons_append]
    cases l with
    | nil => rfl
    | cons e l => rfl
  | union a b =>
    rw [alternatives_normal_union]
    exact ⟨(normal_union a b).symm, nullOnce_idem _⟩

theorem isNull_null : null.isNull = true := by simp [isNull, null]

/-- A type that admits null is the same with one more null. -/
theorem Same.union_null (h : a.normal.alternatives.any isNull = true) : Same (.union a null) a := by
  obtain ⟨hunion, honce⟩ := normal_eq_unionOf a
  have hnull : null.alternatives = [null] := rfl
  have hfilter : [null].filter (!·.isNull) = [] := by simp [isNull_null]
  rw [Same, normal_union, normal_null, hnull, nullOnce_append, h, if_pos rfl, honce, hfilter,
    List.append_nil, hunion]

theorem Same.orNull (n : Bool) (h : Same a b) : Same (orNull n a) (orNull n b) := by
  cases n with
  | false => exact h
  | true => exact h.union (Same.refl null)

theorem any_isNull_unionOf {l : List TypeTree} (h : null ∈ l) :
    (unionOf l).normal.alternatives.any isNull = true := by
  have hnull : null.normal.alternatives = [null] := rfl
  induction l with
  | nil => exact absurd h List.not_mem_nil
  | cons a l ih =>
    cases l with
    | nil =>
      obtain rfl := List.mem_singleton.1 h
      have hone : unionOf [null] = null := rfl
      rw [hone, hnull, List.any_cons, isNull_null, Bool.true_or]
    | cons b l =>
      rw [unionOf_cons_cons, alternatives_normal_union, any_isNull_nullOnce, List.any_append,
        Bool.or_eq_true]
      rcases List.mem_cons.1 h with rfl | h
      · rw [hnull, List.any_cons, isNull_null, Bool.true_or]
        exact Or.inl rfl
      · exact Or.inr (ih h)

end TypeTree

end TypedClients
