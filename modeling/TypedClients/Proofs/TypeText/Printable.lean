import TypedClients.Proofs.Report.Outcome
import TypedClients.Proofs.TypeText.OuterReferences
import TypedClients.Proofs.Value.Json

/-!
# Schemas that can be written

Writing a schema fails only for a literal value that has no JSON form. A schema is `Printable`
if there is none in what is written of it, as in all schemas that are read from JSON.

* `Printable.exists_render`: such a schema can be written.
* `Printable.exists_renderOperation`: also with references followed, if all definitions can be
  written.
-/

namespace TypedClients.Schema

/-- A schema whose literal values all have a form. Of an object only the properties are
written. -/
inductive Printable : Schema → Prop
  | primitive {type format : Option String} {values : Option (List Value)} {n : Bool}
      (h : ∀ v, v ∈ values.getD [] → ∃ text, literal v = .ok text) :
    Printable (primitive type format values n)
  | array {items : Schema} {n : Bool} (h : Printable items) : Printable (array items n)
  | object {properties : List (String × Schema)} {required : List String}
    {additional : Option Schema}
      {n : Bool} (h : ∀ p, p ∈ properties → Printable p.2) :
    Printable (object properties required additional n)
  | dictionary {required : List String} {additional : Option Schema} {n : Bool}
      (h : ∀ s, additional = some s → Printable s) : Printable (dictionary required additional n)
  | composite {mode : Composition} {members : List Schema} {n : Bool}
      (h : ∀ m, m ∈ members → Printable m) : Printable (composite mode members n)
  | reference (ref : String) (n : Bool) : Printable (reference ref n)

variable {names : Ordered String} {index : SchemaIndex} {s : Schema}

theorem exists_literal {v : Value} (h : v.IsJson) : ∃ text, literal v = .ok text := by
  obtain ⟨text, htext⟩ := Json.exists_compact h
  unfold literal
  split
  next => exact ⟨_, rfl⟩
  next => exact ⟨text, by rw [htext]⟩

/-! ## Under a table of names -/

theorem exists_mapM_literal {vs : List Value} (h : ∀ v, v ∈ vs → ∃ text, literal v = .ok text) :
    ∃ texts, vs.mapM literal = .ok texts := by
  induction vs with
  | nil => exact ⟨[], rfl⟩
  | cons v rest ih =>
    obtain ⟨text, htext⟩ := h v List.mem_cons_self
    obtain ⟨texts, htexts⟩ := ih fun w hw => h w (List.mem_cons_of_mem _ hw)
    rw [List.mapM_cons, htext, htexts]
    exact ⟨_, rfl⟩

theorem exists_renderMembers {ms : List Schema}
    (h : ∀ m, m ∈ ms → ∃ text, m.render names = .ok text) :
    ∃ texts, renderMembers names ms = .ok texts := by
  induction ms with
  | nil => exact ⟨[], rfl⟩
  | cons m rest ih =>
    obtain ⟨text, htext⟩ := h m List.mem_cons_self
    obtain ⟨texts, htexts⟩ := ih fun w hw => h w (List.mem_cons_of_mem _ hw)
    rw [renderMembers, htext, htexts]
    exact ⟨_, rfl⟩

theorem exists_renderProperties {required : List String} {ps : List (String × Schema)}
    (h : ∀ p, p ∈ ps → ∃ text, p.2.render names = .ok text) :
    ∃ texts, renderProperties names required ps = .ok texts := by
  induction ps with
  | nil => exact ⟨[], rfl⟩
  | cons p rest ih =>
    obtain ⟨text, htext⟩ := h p List.mem_cons_self
    obtain ⟨texts, htexts⟩ := ih fun w hw => h w (List.mem_cons_of_mem _ hw)
    rw [renderProperties, htext, htexts]
    exact ⟨_, rfl⟩

/-- A printable schema can be written. -/
theorem Printable.exists_render (h : s.Printable) : ∃ text, s.render names = .ok text := by
  induction h with
  | @primitive type format values n hvalues =>
    cases values with
    | none => exact ⟨_, rfl⟩
    | some vs =>
      cases vs with
      | nil => exact ⟨_, rfl⟩
      | cons v vs =>
        obtain ⟨texts, htexts⟩ := exists_mapM_literal hvalues
        rw [Option.getD_some] at htexts
        rw [render.eq_def]
        dsimp only
        rw [htexts]
        exact ⟨_, rfl⟩
  | array _ ih =>
    obtain ⟨text, htext⟩ := ih
    rw [render, htext]
    exact ⟨_, rfl⟩
  | @object properties required additional n _ ih =>
    cases properties with
    | nil => exact ⟨_, rfl⟩
    | cons p ps =>
      obtain ⟨texts, htexts⟩ : ∃ texts, renderProperties names required (p :: ps) = .ok texts :=
        exists_renderProperties ih
      rw [render, htexts]
      exact ⟨_, rfl⟩
  | @dictionary required additional n _ ih =>
    cases additional with
    | none => exact ⟨_, rfl⟩
    | some s =>
      obtain ⟨text, htext⟩ := ih s rfl
      rw [render, htext]
      exact ⟨_, rfl⟩
  | composite _ ih =>
    obtain ⟨texts, htexts⟩ := exists_renderMembers ih
    rw [render, htexts]
    exact ⟨_, rfl⟩
  | reference ref n => exact ⟨_, rfl⟩

/-! ## References that are followed -/

theorem Printable.exists_rendered (h : s.Printable) :
    ∃ text, (s.rendered names).outcome = .ok text := h.exists_render

/-- A sequence returns if its first step does, and the rest does whatever the first one
returned. -/
theorem exists_outcome_bind {α β : Type} {step : Checked α} {rest : α → Checked β}
    (h : ∃ a, step.outcome = .ok a) (hrest : ∀ a, ∃ b, (rest a).outcome = .ok b) :
    ∃ b, (step >>= rest).outcome = .ok b := by
  obtain ⟨a, ha⟩ := h
  obtain ⟨b, hb⟩ := hrest a
  exact ⟨b, Checked.outcome_bind_eq_ok.2 ⟨a, ha, hb⟩⟩

theorem exists_outcome_map {α β : Type} {step : Checked α} (h : ∃ a, step.outcome = .ok a)
    (g : α → β) : ∃ b, (do return g (← step) : Checked β).outcome = .ok b :=
  exists_outcome_bind h fun a => ⟨g a, rfl⟩

theorem exists_renderFollowingMembers {seen : List String} {ms : List Schema}
    (h : ∀ m, m ∈ ms → ∃ text, (renderFollowing index names seen m).outcome = .ok text) :
    ∃ texts, (renderFollowingMembers index names seen ms).outcome = .ok texts := by
  induction ms with
  | nil =>
    rw [renderFollowingMembers]
    exact ⟨[], rfl⟩
  | cons m rest ih =>
    have hrest := ih fun w hw => h w (List.mem_cons_of_mem _ hw)
    rw [renderFollowingMembers]
    exact exists_outcome_bind (h m List.mem_cons_self) fun text => exists_outcome_map
      hrest (text :: ·)

theorem Printable.exists_renderFollowing (hindex : ∀ e, e ∈ index.entries → e.2.Printable)
    (seen : List String) (s : Schema) (h : s.Printable) :
    ∃ text, (renderFollowing index names seen s).outcome = .ok text := by
  induction seen, s using SchemaIndex.follow_induction index with
  | primitive seen type format values n =>
    rw [renderFollowing.eq_def]
    exact h.exists_rendered
  | object seen properties required additional n =>
    rw [renderFollowing.eq_def]
    exact h.exists_rendered
  | dictionary seen required additional n =>
    rw [renderFollowing.eq_def]
    exact h.exists_rendered
  | array seen items n ih =>
    cases h with
    | array hitems =>
      rw [renderFollowing]
      exact exists_outcome_map (ih hitems) _
  | composite seen mode members n ih =>
    cases h with
    | composite hmembers =>
      rw [renderFollowing]
      exact exists_outcome_map (exists_renderFollowingMembers fun m hm => ih m hm (hmembers m hm)) _
  | lost seen ref n hlost =>
    rw [outcome_renderFollowing_lost n hlost]
    exact ⟨_, rfl⟩
  | again seen ref n body hbody hs =>
    rw [renderFollowing_again n hbody hs]
    exact h.exists_rendered
  | follow seen ref n body hbody hs ih =>
    obtain ⟨name, hname, -⟩ := SchemaIndex.lookup?_eq_some hbody
    rw [renderFollowing_follow n hbody hs]
    exact exists_outcome_map (ih (hindex _ hname)) _

theorem Printable.exists_renderOperation (hindex : ∀ e, e ∈ index.entries → e.2.Printable)
    (h : s.Printable) : ∃ text, (s.renderOperation index names).outcome = .ok text :=
  Printable.exists_renderFollowing hindex [] s h

end TypedClients.Schema
