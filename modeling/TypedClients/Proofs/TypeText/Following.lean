import TypedClients.Proofs.Schema.References
import TypedClients.Proofs.TypeText.OuterReferences

/-!
# References that are followed

The type of a request or an answer is written with its outer references replaced by what they
refer to. So its text is that of another schema. A reference in this schema was kept for one
of three reasons: it was followed and leads nowhere, which is reported; it was followed and
met again; or it stands where references are not followed, inside a property, a dictionary or
a definition.

* `follows_renderFollowing`: which schema is written, and where its references come from.
-/

namespace TypedClients.Schema

mutual

/-- The references of a schema that are written as names even where outer references are
followed. -/
def inner : Schema → List String
  | array items _ => items.inner
  | composite _ members _ => innerOfMembers members
  | reference _ _ => []
  | s => s.references

/-- The references of members that are written as names. -/
def innerOfMembers : List Schema → List String
  | [] => []
  | m :: ms => m.inner ++ innerOfMembers ms

end

mutual

theorem mem_references_of_mem_inner {ref : String} :
    ∀ s : Schema, ref ∈ s.inner → ref ∈ s.references
  | primitive _ _ _ _, h => h
  | array items _, h => mem_references_of_mem_inner items h
  | object _ _ _ _, h => h
  | dictionary _ _ _, h => h
  | composite _ members _, h => mem_referencesOfMembers_of_mem_inner members h
  | reference _ _, h => absurd h List.not_mem_nil

theorem mem_referencesOfMembers_of_mem_inner {ref : String} :
    ∀ ms : List Schema, ref ∈ innerOfMembers ms → ref ∈ referencesOfMembers ms
  | [], h => h
  | m :: ms, h => by
    rw [innerOfMembers, List.mem_append] at h
    rw [referencesOfMembers, List.mem_append]
    exact h.imp (mem_references_of_mem_inner m) (mem_referencesOfMembers_of_mem_inner ms)

end

/-- The notice that a reference leads nowhere and is written as a name. -/
def lostNotice (names : Ordered String) (ref : String) : Notice :=
  ⟨.warning, .types, "Cannot resolve $ref '" ++ ref ++ "'; using " ++ referenceName names ref ++
    " as a forward reference"⟩

/-- A reference that is kept as a name: it is reported by one of the notices, or it does lead
somewhere, or it is one of those that are not followed. -/
def Kept (index : SchemaIndex) (names : Ordered String) (inner : List String) (log : List Notice)
    (ref : String) : Prop :=
  lostNotice names ref ∈ log ∨ (index.lookup? ref).isSome ∨ ref ∈ inner ∨
    ∃ e, e ∈ index.entries ∧ ref ∈ e.2.references

/-- A step writes a given text, that of schemas with given references, and these are kept ones. -/
structure Follows {α : Type} (index : SchemaIndex) (names : Ordered String) (inner : List String)
    (step : Checked α) (written : Except Failure α) (refs : List String) : Prop where
  text : step.outcome = written
  kept : ∀ t, written = .ok t → ∀ ref, ref ∈ refs → Kept index names inner step.log ref

variable {index : SchemaIndex} {names : Ordered String}

theorem Kept.mono {inner inner' : List String} {log log' : List Notice} {ref : String}
    (h : Kept index names inner log ref) (hinner : ∀ r, r ∈ inner → r ∈ inner')
    (hlog : ∀ n, n ∈ log → n ∈ log') : Kept index names inner' log' ref :=
  h.imp (hlog _) (Or.imp_right (Or.imp_left (hinner _)))

/-- What is done with the text of a step does not change where its references come from. -/
theorem Follows.map {α β : Type} {inner : List String} {step : Checked α}
    {written : Except Failure α} {refs : List String}
    (h : Follows index names inner step written refs) (f : α → β) :
    Follows index names inner (do return f (← step)) (do return f (← written)) refs := by
  refine ⟨?_, fun t ht ref hr => ?_⟩
  · rw [Checked.outcome_bind, h.text]
    cases written with
    | ok t => rfl
    | error e => rfl
  · obtain ⟨u, hu, -⟩ := bind_eq_ok.1 ht
    rw [Checked.log_bind (h.text.trans hu), Checked.log_pure, List.append_nil]
    exact h.kept u hu ref hr

/-- Two steps one after the other keep the references of both. -/
theorem Follows.zip {α β γ : Type} {inner inner' : List String} {step : Checked α}
    {step' : Checked β} {written : Except Failure α} {written' : Except Failure β}
    {refs refs' : List String} (h : Follows index names inner step written refs)
    (h' : Follows index names inner' step' written' refs') (f : α → β → γ) :
    Follows index names (inner ++ inner') (do return f (← step) (← step'))
      (do return f (← written) (← written')) (refs ++ refs') := by
  have hrest : ∀ a, Follows index names inner' (do return f a (← step'))
      (do return f a (← written')) refs' := fun a => h'.map (f a)
  refine ⟨?_, fun t ht ref hr => ?_⟩
  · rw [Checked.outcome_bind, h.text]
    cases written with
    | ok a => exact (hrest a).text
    | error e => rfl
  · obtain ⟨a, ha, hb⟩ := bind_eq_ok.1 ht
    rw [Checked.log_bind (h.text.trans ha)]
    rcases List.mem_append.1 hr with hr | hr
    · exact (h.kept a ha ref hr).mono (fun _ => List.mem_append_left _)
        fun _ => List.mem_append_left _
    · exact ((hrest a).kept t hb ref hr).mono (fun _ => List.mem_append_right _)
        fun _ => List.mem_append_right _

/-- What is not followed inside a definition is among the references of this definition. -/
theorem Follows.of_definition {α : Type} {name : String} {body : Schema} {step : Checked α}
    {written : Except Failure α} {refs : List String} (hmem : (name, body) ∈ index.entries)
    (h : Follows index names body.inner step written refs) :
    Follows index names [] step written refs := by
  refine ⟨h.text, fun t ht ref hr => ?_⟩
  rcases h.kept t ht ref hr with hlost | hsome | hinner | hdefinition
  · exact Or.inl hlost
  · exact Or.inr (Or.inl hsome)
  · exact Or.inr (Or.inr (Or.inr ⟨_, hmem, mem_references_of_mem_inner body hinner⟩))
  · exact Or.inr (Or.inr (Or.inr hdefinition))

/-- As the one member of a composition a schema is written as it is. -/
theorem render_single (s : Schema) (n : Bool) :
    (composite .oneOf [s] n).render names = do return TypeText.withNull n (← s.render names) := by
  rw [render, renderMembers, renderMembers]
  cases s.render names with
  | ok text => rfl
  | error e => rfl

theorem references_single (s : Schema) (n : Bool) :
    (composite .oneOf [s] n).references = s.references := by
  rw [references, referencesOfMembers, referencesOfMembers, List.append_nil]

theorem follows_rendered (s : Schema) (hinner : s.inner = s.references) :
    Follows index names s.inner (s.rendered names) (s.render names) s.references :=
  ⟨rfl, fun _ _ _ hr => Or.inr (Or.inr (Or.inl (hinner ▸ hr)))⟩

/-- A reference that leads somewhere may be kept silently. -/
theorem follows_reference {ref : String} (n : Bool) (h : (index.lookup? ref).isSome) :
    Follows index names [] ((reference ref n).rendered names) ((reference ref n).render names)
    [ref] :=
  ⟨rfl, fun _ _ _ hr => Or.inr (Or.inl (List.mem_singleton.1 hr ▸ h))⟩

/-- A reference that leads nowhere is reported. -/
theorem follows_lost (ref : String) (n : Bool) :
    Follows index names [] (do
      discard <| Checked.logged (index.resolve ref)
      Checked.warn .types ("Cannot resolve $ref '" ++ ref ++ "'; using " ++
        referenceName names ref ++ " as a forward reference")
      (reference ref n).rendered names) ((reference ref n).render names) [ref] := by
  refine ⟨rfl, fun _ _ r hr => Or.inl ?_⟩
  obtain rfl := List.mem_singleton.1 hr
  rw [Checked.log_bind (a := ()) rfl, Checked.log_bind (a := ()) rfl]
  exact List.mem_append_right _ (List.mem_append_left _ List.mem_cons_self)

/-- Members are written as some schemas, if each is written as one. -/
theorem follows_renderFollowingMembers {seen : List String} {ms : List Schema}
    (h : ∀ m, m ∈ ms → ∃ m' : Schema,
      Follows index names m.inner (renderFollowing index names seen m)
      (m'.render names) m'.references) :
    ∃ ms' : List Schema, Follows index names (innerOfMembers ms)
      (renderFollowingMembers index names seen ms) (renderMembers names ms')
      (referencesOfMembers ms') := by
  induction ms with
  | nil =>
    rw [renderFollowingMembers]
    exact ⟨[], rfl, fun _ _ r hr => absurd hr List.not_mem_nil⟩
  | cons m rest ih =>
    obtain ⟨m', hm⟩ := h m List.mem_cons_self
    obtain ⟨rest', hrest⟩ := ih fun w hw => h w (List.mem_cons_of_mem _ hw)
    rw [renderFollowingMembers]
    refine ⟨m' :: rest', ?_⟩
    rw [renderMembers]
    exact hm.zip hrest List.cons

/-- What an operation is sent or answers is written as some schema, whose references are kept
ones. -/
theorem follows_renderFollowing (seen : List String) (s : Schema) :
    ∃ s' : Schema, Follows index names s.inner (renderFollowing index names seen s)
      (s'.render names) s'.references := by
  induction seen, s using SchemaIndex.follow_induction index with
  | primitive seen type format values n =>
    rw [renderFollowing.eq_def]
    exact ⟨_, follows_rendered (primitive type format values n) rfl⟩
  | object seen properties required additional n =>
    rw [renderFollowing.eq_def]
    exact ⟨_, follows_rendered (object properties required additional n) rfl⟩
  | dictionary seen required additional n =>
    rw [renderFollowing.eq_def]
    exact ⟨_, follows_rendered (dictionary required additional n) rfl⟩
  | array seen items n ih =>
    obtain ⟨items', h⟩ := ih
    rw [renderFollowing]
    refine ⟨array items' n, ?_⟩
    rw [render]
    exact h.map _
  | composite seen mode members n ih =>
    obtain ⟨members', h⟩ := follows_renderFollowingMembers ih
    rw [renderFollowing]
    refine ⟨composite mode members' n, ?_⟩
    rw [render]
    exact h.map _
  | lost seen ref n hlost =>
    rw [renderFollowing_lost n hlost]
    exact ⟨reference ref n, follows_lost ref n⟩
  | again seen ref n body hbody hs =>
    rw [renderFollowing_again n hbody hs]
    exact ⟨reference ref n, follows_reference n (by rw [hbody]; rfl)⟩
  | follow seen ref n body hbody hs ih =>
    obtain ⟨body', h⟩ := ih
    obtain ⟨name, hname, -⟩ := SchemaIndex.lookup?_eq_some hbody
    rw [renderFollowing_follow n hbody hs]
    refine ⟨composite .oneOf [body'] n, ?_⟩
    rw [render_single, references_single]
    exact (h.of_definition hname).map _

end TypedClients.Schema
