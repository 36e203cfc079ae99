/-!
# Runs that may fail

A run made of several steps succeeds if every step does, and fails at the first step that fails. The
lemmas here take such a run apart.
-/

namespace Microtypes

variable {ε δ α β : Type} {run : Except ε α} {next : α → Except ε β} {f : α → β} {wrap : ε → δ}
  {a : α} {b : β} {e : ε}

theorem bind_eq_ok_iff : run >>= next = .ok b ↔ ∃ a, run = .ok a ∧ next a = .ok b := by
  cases run <;> simp [bind, Except.bind]

theorem bind_eq_error_iff :
    run >>= next = .error e ↔ run = .error e ∨ ∃ a, run = .ok a ∧ next a = .error e := by
  cases run <;> simp [bind, Except.bind]

theorem map_eq_ok_iff : run.map f = .ok b ↔ ∃ a, run = .ok a ∧ f a = b := by
  cases run <;> simp [Except.map]

theorem map_eq_error_iff : run.map f = .error e ↔ run = .error e := by
  cases run <;> simp [Except.map]

/-- Another wording of the fault does not make a value. -/
theorem mapError_eq_ok_iff : run.mapError wrap = .ok a ↔ run = .ok a := by
  cases run with
  | error e => exact ⟨nofun, nofun⟩
  | ok a' =>
    constructor
    · intro h
      cases h
      rfl
    · intro h
      cases h
      rfl

theorem mapError_eq_error_iff {d : δ} :
    run.mapError wrap = .error d ↔ ∃ e, run = .error e ∧ wrap e = d := by
  cases run with
  | error e =>
    constructor
    · intro h
      cases h
      exact ⟨e, rfl, rfl⟩
    · rintro ⟨e', he, rfl⟩
      cases he
      rfl
  | ok a =>
    constructor
    · intro h
      cases h
    · rintro ⟨e, he, -⟩
      cases he

/-- What is put beside a result can be taken away again. -/
theorem map_fst_map (run : Except ε α) (beside : β) :
    (run.map (·, beside)).map Prod.fst = run := by
  cases run <;> rfl

end Microtypes
