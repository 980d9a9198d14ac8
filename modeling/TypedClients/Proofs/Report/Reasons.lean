import TypedClients.Proofs.Report.Outcome

/-!
# Steps that fail for exactly some reasons

A step that reads many fields fails if one of them is unfit, and then with the failure of an
unfit one. `FailsFor` says both at once, with the failures of all unfit fields as a set that
does not depend on the order in which the fields are read; and it says what is returned
otherwise. A sequence of steps fails for the reasons of its steps together.

* `FailsFor.bind`, `FailsFor.checked_bind`: sequences of steps.
* `FailsFor.exists_mem_cons`: the reasons of one step for each item of a list.
-/

namespace TypedClients

theorem bind_eq_error {ε α β : Type} {x : Except ε α} {f : α → Except ε β} {e : ε} :
    (x >>= f) = .error e ↔ x = .error e ∨ ∃ a, x = .ok a ∧ f a = .error e := by
  cases x with
  | ok a => simp [bind, Except.bind]
  | error e' => simp [bind, Except.bind]

/-- A step fails exactly if there is a reason to, with one of the reasons, and gives a result
of some kind otherwise. -/
structure FailsFor {α : Type} (x : Except Failure α) (reasons : Failure → Prop) (gives : α → Prop) :
    Prop where
  caused : ∀ f, x = .error f → reasons f
  clear : ∀ a, x = .ok a → gives a ∧ ∀ f, ¬ reasons f

namespace FailsFor

variable {α β : Type} {x : Except Failure α} {reasons more : Failure → Prop} {gives : α → Prop}
  {gives' : β → Prop}

theorem of_ok {a : α} (ha : gives a) (h : ∀ f, ¬ reasons f) :
    FailsFor (.ok a : Except Failure α) reasons gives :=
  ⟨fun _ he => (nomatch he), fun _ he => Except.ok.inj he ▸ ⟨ha, h⟩⟩

theorem of_error {f : Failure} (h : reasons f) :
    FailsFor (.error f : Except Failure α) reasons gives :=
  ⟨fun _ he => Except.error.inj he ▸ h, fun _ ha => (nomatch ha)⟩

/-- A step that cannot fail has no reason to. -/
theorem never {a : α} (ha : gives a) :
    FailsFor (.ok a : Except Failure α) (fun _ => False) gives := of_ok ha fun _ hf => hf

theorem congr (h : FailsFor x reasons gives) (hsame : ∀ f, reasons f ↔ more f) :
    FailsFor x more gives := by
  refine ⟨fun f hf => (hsame f).1 (h.caused f hf), fun a ha => ?_⟩
  obtain ⟨hgives, hclear⟩ := h.clear a ha
  exact ⟨hgives, fun f hf => hclear f ((hsame f).2 hf)⟩

/-- What a step gives is what it returns. -/
theorem returned (h : FailsFor x reasons gives) :
    FailsFor x reasons fun a => x = .ok a ∧ gives a :=
  ⟨h.caused, fun a ha => ⟨⟨ha, (h.clear a ha).1⟩, (h.clear a ha).2⟩⟩

/-! ## Sequences -/

/-- A sequence fails for the reasons of both parts. -/
theorem bind {k : α → Except Failure β} (h : FailsFor x reasons gives)
    (hrest : ∀ a, gives a → FailsFor (k a) more gives') :
    FailsFor (x >>= k) (fun f => reasons f ∨ more f) gives' := by
  cases hx : x with
  | error e => exact of_error (Or.inl (h.caused e hx))
  | ok a =>
    obtain ⟨hgives, hclear⟩ := h.clear a hx
    have hk := hrest a hgives
    refine ⟨fun f hf => Or.inr (hk.caused f hf), fun b hb => ?_⟩
    obtain ⟨hgives', hclear'⟩ := hk.clear b hb
    exact ⟨hgives', fun f hf => hf.elim (hclear f) (hclear' f)⟩

/-- What is done with the result adds no reason. -/
theorem map (h : FailsFor x reasons gives) {g : α → β} (hg : ∀ a, gives a → gives' (g a)) :
    FailsFor (do return g (← x)) reasons gives' :=
  (h.bind fun a ha => never (hg a ha)).congr fun _ => or_iff_left not_false

/-- Likewise for steps that report. -/
theorem checked_bind {x : Checked α} {k : α → Checked β} (h : FailsFor x.outcome reasons gives)
    (hrest : ∀ a, gives a → FailsFor (k a).outcome more gives') :
    FailsFor (x >>= k).outcome (fun f => reasons f ∨ more f) gives' := by
  have hbind := h.bind hrest
  rw [Checked.outcome_bind]
  cases hx : x.outcome with
  | error e =>
    rw [hx] at hbind
    exact hbind
  | ok a =>
    rw [hx] at hbind
    exact hbind

theorem checked_map {x : Checked α} (h : FailsFor x.outcome reasons gives) {g : α → β}
    (hg : ∀ a, gives a → gives' (g a)) :
    FailsFor (do return g (← x) : Checked β).outcome reasons gives' := by
  have hbind := h.checked_bind (k := fun a => pure (g a)) fun a ha => never (hg a ha)
  exact hbind.congr fun _ => or_iff_left not_false

/-! ## Reasons of lists -/

variable {γ : Type} {unfit : γ → Failure → Prop} {c : γ} {cs : List γ} {f : Failure}

/-- The reasons of items are those of the first one and those of the others. -/
theorem exists_mem_cons : (unfit c f ∨ ∃ c', c' ∈ cs ∧ unfit c' f) ↔ ∃ c', c' ∈ c :: cs ∧
    unfit c' f := by
  simp only [List.mem_cons, exists_eq_or_imp]

theorem exists_mem_nil : ¬ ∃ c, c ∈ ([] : List γ) ∧ unfit c f :=
  fun ⟨_, hc, _⟩ => List.not_mem_nil hc

end FailsFor

end TypedClients
