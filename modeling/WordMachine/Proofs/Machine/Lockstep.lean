import WordMachine.Proofs.Machine.Run

/-!
# Actions in lockstep

Two actions are in **lockstep** on a relation of machines when from related machines both succeed
with the same value or both fail with the same error, and the machines are related again. Some
errors of the first action may be **excused**: then nothing is asked of the second.

Lockstep is kept by going on (`LockstepUnless.bind`), and steps in lockstep make runs in lockstep
(`lockstep_loop`, `lockstep_run`): with every number of steps both have the same result, or none.
With excuses, this holds unless the first run ends with an error that is excused
(`lockstep_loop_unless`), and then up to the step that fails so (`exists_step_of_loop_excused`).
-/

namespace WordMachine

/-- What comes of an action. -/
abbrev Outcome (α : Type) := EStateM.Result MachineError Machine α

variable {α β : Type} {excused : MachineError → Prop} {R : Machine → Machine → Prop}

/-- Two outcomes match when they have the same value or the same error, with machines that are
related. An error that is excused matches everything. -/
inductive Outcome.Matches (excused : MachineError → Prop) (R : Machine → Machine → Prop) :
    Outcome α → Outcome α → Prop
  | ok (a : α) {m m' : Machine} (h : R m m') : Matches excused R (.ok a m) (.ok a m')
  | error (e : MachineError) {m m' : Machine} (h : R m m') :
      Matches excused R (.error e m) (.error e m')
  | excused {e : MachineError} (he : excused e) (m : Machine) (outcome : Outcome α) :
      Matches excused R (.error e m) outcome

namespace Action

/-- Two actions are in lockstep, with some errors excused, when they turn related machines into
outcomes that match. -/
def LockstepUnless (excused : MachineError → Prop) (R : Machine → Machine → Prop)
    (x y : Action α) : Prop :=
  ∀ ⦃m m'⦄, R m m' → Outcome.Matches excused R (x m) (y m')

/-- Two actions are in lockstep when they turn related machines into outcomes that match, with no
error excused. -/
abbrev Lockstep (R : Machine → Machine → Prop) (x y : Action α) : Prop :=
  LockstepUnless (fun _ => False) R x y

namespace LockstepUnless

theorem pure (a : α) : LockstepUnless excused R (pure a) (pure a) := fun _ _ h => .ok a h

theorem throw (e : MachineError) : LockstepUnless excused R (throw e : Action α) (throw e) :=
  fun _ _ h => .error e h

theorem modify {f g : Machine → Machine} (hfg : ∀ ⦃m m'⦄, R m m' → R (f m) (g m')) :
    LockstepUnless excused R (modify f : Action PUnit) (modify g) := fun _ _ h => .ok () (hfg h)

theorem bind {x y : Action α} {f g : α → Action β} (hxy : LockstepUnless excused R x y)
    (hfg : ∀ a, LockstepUnless excused R (f a) (g a)) :
    LockstepUnless excused R (x >>= f) (y >>= g) := by
  intro m m' h
  have hmatch := hxy h
  rw [bind_apply, bind_apply]
  generalize x m = outcome at hmatch
  generalize y m' = outcome' at hmatch
  cases hmatch with
  | ok a h' => exact hfg a h'
  | error e h' => exact .error e h'
  | excused he m₁ => exact .excused he m₁ _

end LockstepUnless

end Action

namespace Machine

open WordMachine.Action

variable {symbols : SymbolTable} {m m' : Machine}

/-- Steps in lockstep make loops in lockstep up to a step with an error that is excused, as long as
related machines stand at the same instruction and are to stop at the same one. -/
theorem lockstep_loop_unless (hstep : LockstepUnless excused R (step symbols) (step symbols))
    (hpc : ∀ ⦃m m'⦄, R m m' → m.pc = m'.pc) (hhaltAt : ∀ ⦃m m'⦄, R m m' → m.haltAt = m'.haltAt)
    (fuel : Nat) (h : R m m') :
    (∃ e f, loop symbols fuel m = (f, some (.error e)) ∧ excused e) ∨
      (loop symbols fuel m).2 = (loop symbols fuel m').2 ∧
        R (loop symbols fuel m).1 (loop symbols fuel m').1 := by
  induction fuel generalizing m m' with
  | zero => exact .inr ⟨rfl, h⟩
  | succ fuel ih =>
    have hmatch := hstep h
    rw [loop_succ, loop_succ]
    generalize step symbols m = outcome at hmatch
    generalize step symbols m' = outcome' at hmatch
    cases hmatch with
    | error e h' => exact .inr ⟨rfl, h'⟩
    | excused he f => exact .inl ⟨_, f, rfl, he⟩
    | ok control h' =>
      simp only [haltReason?, hpc h, hhaltAt h']
      split
      · exact .inr ⟨rfl, h'⟩
      · exact ih h'

/-- An error that is excused comes in a step, up to which the loops are in lockstep. -/
theorem exists_step_of_loop_excused
    (hstep : LockstepUnless excused R (step symbols) (step symbols))
    (hpc : ∀ ⦃m m'⦄, R m m' → m.pc = m'.pc) (hhaltAt : ∀ ⦃m m'⦄, R m m' → m.haltAt = m'.haltAt)
    (fuel : Nat) (h : R m m') :
    (∃ k s s' e failed, k < fuel ∧ loop symbols k m = (s, none) ∧ loop symbols k m' = (s', none) ∧
        R s s' ∧ step symbols s = .error e failed ∧ excused e ∧
        loop symbols fuel m = (failed, some (.error e))) ∨
      (loop symbols fuel m).2 = (loop symbols fuel m').2 ∧
        R (loop symbols fuel m).1 (loop symbols fuel m').1 := by
  obtain ⟨e, failed, hloop, he⟩ | hlockstep := lockstep_loop_unless hstep hpc hhaltAt fuel h
  · obtain ⟨k, s, hk, hreached, hfails⟩ := exists_step_of_loop_error hloop
    obtain ⟨_, _, hloop', -⟩ | ⟨hresult, hlast⟩ := lockstep_loop_unless hstep hpc hhaltAt k h
    · rw [hreached] at hloop'
      cases hloop'
    · -- The step that fails is not among the first `k`, so both loops have come as far.
      rw [hreached] at hresult hlast
      exact .inl ⟨k, s, _, e, failed, hk, hreached, Prod.ext rfl hresult.symm, hlast, hfails, he,
        hloop⟩
  · exact .inr hlockstep

/-- Steps in lockstep make loops in lockstep. -/
theorem lockstep_loop (hstep : Lockstep R (step symbols) (step symbols))
    (hpc : ∀ ⦃m m'⦄, R m m' → m.pc = m'.pc) (hhaltAt : ∀ ⦃m m'⦄, R m m' → m.haltAt = m'.haltAt)
    (fuel : Nat) (h : R m m') :
    (loop symbols fuel m).2 = (loop symbols fuel m').2 ∧
      R (loop symbols fuel m).1 (loop symbols fuel m').1 := by
  obtain ⟨_, _, -, ⟨⟩⟩ | hloop := lockstep_loop_unless hstep hpc hhaltAt fuel h
  exact hloop

/-- Loops in lockstep make runs in lockstep, if the flush at the end is. -/
theorem lockstep_run_of_loop {fuel : Nat} (hflush : Lockstep R flush flush)
    (hresult : (loop symbols fuel m).2 = (loop symbols fuel m').2)
    (hlast : R (loop symbols fuel m).1 (loop symbols fuel m').1) :
    (run symbols fuel m).2 = (run symbols fuel m').2 ∧
      R (run symbols fuel m).1 (run symbols fuel m').1 := by
  rw [run, run]
  generalize loop symbols fuel m = last at hresult hlast
  generalize loop symbols fuel m' = last' at hresult hlast
  obtain ⟨s, result⟩ := last
  obtain ⟨s', result'⟩ := last'
  dsimp only at hresult hlast
  subst hresult
  cases result with
  | none => exact ⟨rfl, hlast⟩
  | some result =>
    have hmatch := hflush hlast
    dsimp only [finish]
    generalize flush s = outcome at hmatch
    generalize flush s' = outcome' at hmatch
    cases hmatch with
    | ok a h' => exact ⟨rfl, h'⟩
    | error e h' => exact ⟨rfl, h'⟩
    | excused he => exact he.elim

/-- Runs are in lockstep when steps and the flush at the end are. -/
theorem lockstep_run (hstep : Lockstep R (step symbols) (step symbols))
    (hflush : Lockstep R flush flush) (hpc : ∀ ⦃m m'⦄, R m m' → m.pc = m'.pc)
    (hhaltAt : ∀ ⦃m m'⦄, R m m' → m.haltAt = m'.haltAt) (fuel : Nat) (h : R m m') :
    (run symbols fuel m).2 = (run symbols fuel m').2 ∧
      R (run symbols fuel m).1 (run symbols fuel m').1 := by
  obtain ⟨hresult, hlast⟩ := lockstep_loop hstep hpc hhaltAt fuel h
  exact lockstep_run_of_loop hflush hresult hlast

end Machine

end WordMachine
