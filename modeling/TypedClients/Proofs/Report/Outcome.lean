import TypedClients.Report.Log

/-!
# Outcomes of steps that report and may fail

What a sequence of `Checked` steps returns, and which notices it leaves. Each lemma takes one kind
of step apart, so that a run of a long sequence is read off without unfolding any of its steps.

* `bind_eq_ok`, `Checked.outcome_bind_eq_ok`: a sequence returns exactly if its first step
  does, and the rest does with what the first one returned.
* `Checked.log_bind`: if the first step returns, the notices of the rest come behind its own.
-/

namespace TypedClients

theorem bind_eq_ok {ε α β : Type} {x : Except ε α} {f : α → Except ε β} {b : β} :
    (x >>= f) = .ok b ↔ ∃ a, x = .ok a ∧ f a = .ok b := by
  cases x with
  | ok a => simp [bind, Except.bind]
  | error e => simp [bind, Except.bind]

theorem Failure.eq_ok_of_toOption {α : Type} {x : Except Failure α} {a : α}
    (h : x.toOption = some a) : x = .ok a := by
  cases x with
  | ok b => exact congrArg Except.ok (Option.some.inj h)
  | error e => cases h

theorem Failure.exists_eq_ok {α : Type} {x : Except Failure α} (h : x.toOption.isSome) :
    ∃ a, x = .ok a :=
  (Option.isSome_iff_exists.1 h).imp fun _ => eq_ok_of_toOption

namespace Checked

variable {α β : Type}

@[simp] theorem outcome_pure (a : α) : (pure a : Checked α).outcome = .ok a := rfl

@[simp] theorem outcome_logged (x : Logged α) : (logged x).outcome = .ok x.value := rfl

@[simp] theorem outcome_ofExcept (x : Except Failure α) : (ofExcept x).outcome = x := rfl

@[simp] theorem outcome_throw (e : Failure) : (throw e : Checked α).outcome = .error e := rfl

theorem outcome_bind (x : Checked α) (f : α → Checked β) :
    (x >>= f).outcome =
      match x.outcome with
      | .ok a => (f a).outcome
      | .error e => .error e := by
  unfold outcome
  simp only [ExceptT.run, bind, ExceptT.bind, ExceptT.mk, Logged.bind]
  generalize (show Logged (Except Failure α) from x) = r
  obtain ⟨v, _⟩ := r
  cases v <;> rfl

theorem outcome_bind_eq_ok {x : Checked α} {f : α → Checked β} {b : β} :
    (x >>= f).outcome = .ok b ↔ ∃ a, x.outcome = .ok a ∧ (f a).outcome = .ok b := by
  rw [outcome_bind]
  cases x.outcome with
  | ok a => simp
  | error e => simp

/-- Sequences have one outcome if their first steps have, and their continuations do. -/
theorem outcome_bind_congr {x y : Checked α} {f g : α → Checked β} (h : x.outcome = y.outcome)
    (hrest : ∀ a, (f a).outcome = (g a).outcome) : (x >>= f).outcome = (y >>= g).outcome := by
  rw [outcome_bind, outcome_bind, h]
  cases y.outcome with
  | ok a => exact hrest a
  | error e => rfl

/-- A step whose failures are reported as others returns what the step returns. -/
theorem outcome_reporting_eq_ok {g : Failure → Failure} {x : Checked α} {a : α} :
    (x.reporting g).outcome = .ok a ↔ x.outcome = .ok a := by
  have h : (x.reporting g).outcome = x.outcome.mapError g := rfl
  rw [h]
  cases x.outcome with
  | ok b => exact Iff.rfl
  | error e => exact ⟨fun h => (nomatch h), fun h => (nomatch h)⟩

/-! ## Notices -/

@[simp] theorem log_pure (a : α) : (pure a : Checked α).log = [] := rfl

@[simp] theorem log_logged (x : Logged α) : (logged x).log = x.log := by
  have h : (logged x).log = x.log ++ [] := rfl
  rw [h, List.append_nil]

@[simp] theorem log_ofExcept (x : Except Failure α) : (ofExcept x).log = [] := rfl

/-- If its first step succeeds, a sequence has the notices of both of its parts. -/
theorem log_bind {x : Checked α} {a : α} (h : x.outcome = .ok a) (f : α → Checked β) :
    (x >>= f).log = x.log ++ (f a).log := by
  unfold outcome at h
  unfold log
  simp only [ExceptT.run, bind, ExceptT.bind, ExceptT.mk, Logged.bind]
  revert h
  generalize (show Logged (Except Failure α) from x) = r
  obtain ⟨v, _⟩ := r
  intro h
  obtain rfl : v = .ok a := h
  rfl

/-- Whatever becomes of the rest, the notices of the first step stay. -/
theorem prefix_log_bind (x : Checked α) (f : α → Checked β) : x.log <+: (x >>= f).log := by
  unfold log
  simp only [ExceptT.run, bind, ExceptT.bind, ExceptT.mk, Logged.bind]
  generalize (show Logged (Except Failure α) from x) = r
  exact List.prefix_append _ _

theorem log_reporting (g : Failure → Failure) (x : Checked α) : (x.reporting g).log = x.log := by
  have h : (x.reporting g).log = x.log ++ [] := rfl
  rw [h, List.append_nil]

end Checked

end TypedClients
