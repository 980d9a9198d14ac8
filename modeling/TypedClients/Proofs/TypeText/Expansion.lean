import TypedClients.Proofs.TypeText.Meaning
import TypedClients.Proofs.TypeText.OuterReferences

/-!
# Following references is writing the expanded schema

The type of a request or an answer is written while its outer references are followed. The
same text comes out if the references are replaced first, in the schema, and the schema is
written afterwards.

The two differ in where null is added. A chain of references that admit null adds it level by
level, each time after a look at the text so far; the expanded schema has one marker, which
collects those of the chain. They agree because the text of a schema closes what it opens, so
that an added null is found again.

* `TypeText.withNull_withNull`: admitting null twice is admitting it once.
* `render_orNullable`: one more marker is one more look at the text.
* `outcome_renderOperation`: the text written with references followed is that of the expansion.
-/

namespace TypedClients

/-! ## Null is added once -/

namespace TypeText

variable {text : String}

theorem Spelled.even {δ : TypeTree} (h : Spelled text δ) : Even text.toList := by
  obtain ⟨τ, hτ, -⟩ := h
  exact hτ.even

/-- An added null is found again. -/
theorem hasNull_add_null (h : Even text.toList) : hasNull (text ++ " | null") = true := by
  have hblank : Even (text.toList ++ [' ']) :=
    h.append (even_of_isPlain (List.all_eq_true.1 (by decide)))
  have htext : (text ++ " | null").toList = text.toList ++ [' '] ++ '|' :: " null".toList := by simp
  have hnull : " null".toList ∈ splitTopLevel '|' " null".toList := by decide
  rw [hasNull, List.any_eq_true, htext, hblank.closes.splitTopLevel_append_cons rfl]
  exact ⟨_, List.mem_append_right _ hnull, by decide⟩

/-- Admitting null twice is admitting it once. -/
theorem withNull_withNull (h : Even text.toList) (n m : Bool) :
    withNull n (withNull m text) = withNull (n || m) text := by
  cases m with
  | false => rw [Bool.or_false, withNull.eq_def false, Bool.not_false, Bool.true_or, if_pos rfl]
  | true =>
    rw [Bool.or_true, withNull.eq_def true, Bool.not_true, Bool.false_or]
    unfold withNull
    split
    next hnull => rw [hnull, Bool.or_true, if_pos rfl]
    next => rw [hasNull_add_null h, Bool.or_true, if_pos rfl]

end TypeText

namespace Schema

open TypeText (withNull)

variable {names : Ordered String} {index : SchemaIndex}

/-! ## Markers -/

/-- A schema with its own marker replaced. -/
def withNullable (n : Bool) : Schema → Schema
  | primitive type format values _ => primitive type format values n
  | array items _ => array items n
  | object properties required additional _ => object properties required additional n
  | dictionary required additional _ => dictionary required additional n
  | composite mode members _ => composite mode members n
  | reference ref _ => reference ref n

/-- A schema that admits null if it did before or if asked for. -/
def orNullable (n : Bool) (s : Schema) : Schema := s.withNullable (n || s.nullable)

theorem withNullable_nullable (s : Schema) : s.withNullable s.nullable = s := by
  cases s <;> rfl

/-- The marker of a schema comes last: it decides what is done with the text without it. -/
theorem render_withNullable (n : Bool) (s : Schema) :
    (s.withNullable n).render names =
      do return withNull n (← (s.withNullable false).render names) := by
  cases s with
  | primitive type format values m =>
    cases values with
    | none => rfl
    | some vs =>
      cases vs with
      | nil => rfl
      | cons v vs =>
        simp only [withNullable, render]
        cases (v :: vs).mapM literal <;> rfl
  | array items m =>
    simp only [withNullable, render]
    cases items.render names <;> rfl
  | object properties required additional m =>
    cases properties with
    | nil => rfl
    | cons p ps =>
      simp only [withNullable, render]
      cases renderProperties names required (p :: ps) <;> rfl
  | dictionary required additional m =>
    cases additional with
    | none => rfl
    | some s =>
      simp only [withNullable, render]
      cases s.render names <;> rfl
  | composite mode members m =>
    simp only [withNullable, render]
    cases renderMembers names members <;> rfl
  | reference ref m => rfl

/-- One more marker is one more look at the text. -/
theorem render_orNullable (hnames : ∀ e, e ∈ names → Naming.isIdentifier e.2.toList = true)
    (n : Bool) (s : Schema) :
    (s.orNullable n).render names = do return withNull n (← s.render names) := by
  have hown : s.render names =
      do return withNull s.nullable (← (s.withNullable false).render names) := by
    rw [← render_withNullable, withNullable_nullable]
  rw [orNullable, render_withNullable, hown]
  cases h : (s.withNullable false).render names with
  | error e => rfl
  | ok text =>
    obtain ⟨δ, -, hspelled⟩ := spelled_render hnames _ text h
    exact congrArg Except.ok (TypeText.withNull_withNull hspelled.even n s.nullable).symm

/-! ## Expansion -/

mutual

/-- A schema with its outer references replaced by what they refer to, those in list items and
in members of compositions included. A reference is kept if it leads nowhere or is among those
that are being replaced around it. -/
def expand (index : SchemaIndex) (seen : List String) (s : Schema) : Schema :=
  match s with
  | reference ref n =>
    match _h : index.lookup? ref with
    | none => reference ref n
    | some body =>
      if _hs : ref ∈ seen then reference ref n
      else (body.expand index (ref :: seen)).orNullable n
  | array items n => array (items.expand index seen) n
  | composite mode members n => composite mode (expandMembers index seen members) n
  | s => s
termination_by index.effort seen (sizeOf s)
decreasing_by
  · exact SchemaIndex.effort_follow_lt _h _hs
  · exact SchemaIndex.effort_lt (by simp only [array.sizeOf_spec]; omega)
  · exact SchemaIndex.effort_lt (by simp only [composite.sizeOf_spec]; omega)

/-- Members of a composition, each with its outer references replaced. -/
def expandMembers (index : SchemaIndex) (seen : List String) (ms : List Schema) : List Schema :=
  match ms with
  | [] => []
  | m :: rest => m.expand index seen :: expandMembers index seen rest
termination_by index.effort seen (sizeOf ms)
decreasing_by
  · exact SchemaIndex.effort_lt (by simp only [List.cons.sizeOf_spec]; omega)
  · exact SchemaIndex.effort_lt (by simp only [List.cons.sizeOf_spec]; omega)

end

/-- A reference that leads nowhere is kept. -/
theorem expand_lost {ref : String} (h : index.lookup? ref = none) (seen : List String) (n : Bool) :
    (reference ref n).expand index seen = reference ref n := by
  rw [expand]
  split
  next => rfl
  next body hbody => exact absurd (hbody.symm.trans h) (Option.some_ne_none body)

/-- A reference that is met again while it is being replaced is kept. -/
theorem expand_again {ref : String} {seen : List String} (hs : ref ∈ seen) (n : Bool) :
    (reference ref n).expand index seen = reference ref n := by
  rw [expand]
  split
  next => rfl
  next => rw [dif_pos hs]

/-- Any other reference becomes the expansion of what it refers to, which admits null as
before or as the reference does. -/
theorem expand_follow {ref : String} {seen : List String} {body : Schema}
    (h : index.lookup? ref = some body) (hs : ref ∉ seen) (n : Bool) :
    (reference ref n).expand index seen = (body.expand index (ref :: seen)).orNullable n := by
  rw [expand]
  split
  next hnone => exact absurd (h.symm.trans hnone) (Option.some_ne_none body)
  next body' hbody =>
    obtain rfl := Option.some.inj (h.symm.trans hbody)
    rw [dif_neg hs]

/-- Steps that give what is computed give it after a last change too. -/
theorem outcome_map {α β : Type} {step : Checked α} {written : Except Failure α}
    (h : step.outcome = written) (f : α → β) :
    Checked.outcome (do return f (← step)) = do return f (← written) := by
  rw [Checked.outcome_bind, h]
  cases written <;> rfl

/-- Members are written one after the other, as their expansions are. -/
theorem outcome_renderFollowingMembers {seen : List String} {ms : List Schema}
    (h : ∀ m, m ∈ ms →
      (renderFollowing index names seen m).outcome = (m.expand index seen).render names) :
    (renderFollowingMembers index names seen ms).outcome =
      renderMembers names (expandMembers index seen ms) := by
  induction ms with
  | nil =>
    rw [renderFollowingMembers, expandMembers]
    rfl
  | cons m rest ih =>
    have hrest := ih fun w hw => h w (List.mem_cons_of_mem _ hw)
    rw [renderFollowingMembers, expandMembers, renderMembers, Checked.outcome_bind,
      h m List.mem_cons_self]
    cases (m.expand index seen).render names with
    | error e => rfl
    | ok text => exact outcome_map hrest _

/-- Following references while writing gives the text of the expansion, whatever is being
followed. -/
theorem outcome_renderFollowing (hnames : ∀ e, e ∈ names → Naming.isIdentifier e.2.toList = true)
    (seen : List String) (s : Schema) :
    (renderFollowing index names seen s).outcome = (s.expand index seen).render names := by
  induction seen, s using SchemaIndex.follow_induction index with
  | primitive seen type format values n =>
    rw [renderFollowing.eq_def, expand.eq_def]
    rfl
  | object seen properties required additional n =>
    rw [renderFollowing.eq_def, expand.eq_def]
    rfl
  | dictionary seen required additional n =>
    rw [renderFollowing.eq_def, expand.eq_def]
    rfl
  | array seen items n ih =>
    rw [renderFollowing, expand, render]
    exact outcome_map ih _
  | composite seen mode members n ih =>
    rw [renderFollowing, expand, render]
    exact outcome_map (outcome_renderFollowingMembers ih) _
  | lost seen ref n hlost =>
    rw [outcome_renderFollowing_lost n hlost, expand_lost hlost]
  | again seen ref n body hbody hs =>
    rw [renderFollowing_again n hbody hs, expand_again hs]
    rfl
  | follow seen ref n body hbody hs ih =>
    rw [renderFollowing_follow n hbody hs, expand_follow hbody hs, render_orNullable hnames]
    exact outcome_map ih _

/-- What an operation is sent or answers is written as its expansion is: outer references
replaced by what they refer to, each with its marker added to that of what it refers to. -/
theorem outcome_renderOperation (hnames : ∀ e, e ∈ names → Naming.isIdentifier e.2.toList = true)
    (index : SchemaIndex) (s : Schema) :
    (s.renderOperation index names).outcome = (s.expand index []).render names :=
  outcome_renderFollowing hnames [] s

/-- Trees of trees, and what may be either a tree or a note, by two ways that both admit null. -/
def forest : SchemaIndex where
  base := "#/definitions/"
  entries := [
    ("Tree", array (reference "#/definitions/Tree" false) false),
    ("Note", object [("text", string)] [] none false),
    ("Item", composite .oneOf [reference "#/definitions/Tree" false, reference "Note" true] true),
    ("Alias", reference "#/definitions/Item" true)]

/-- A list of items is written with the items in it, null once for three markers, and the tree
inside of the tree as a name. -/
theorem outcome_renderOperation_forest :
    (∀ e, e ∈ [("Tree", "Tree"), ("Note", "Note1")] → Naming.isIdentifier e.2.toList = true) ∧
      ((array (reference "Alias" true) false).renderOperation forest
        [("Tree", "Tree"), ("Note", "Note1")]).outcome =
      ((array (reference "Alias" true) false).expand forest []).render
        [("Tree", "Tree"), ("Note", "Note1")] ∧
      (((array (reference "Alias" true) false).expand forest []).render
        [("Tree", "Tree"), ("Note", "Note1")]).toOption =
      some "(Tree[] | \x7b text?: string \x7d | null)[]" :=
  ⟨by decide, outcome_renderOperation (by decide) _ _, by decide +kernel⟩

end Schema

end TypedClients
