import WordMachine.Machine.Run
import WordMachine.Proofs.Machine.Action

/-!
# Runs as sequences of steps

The equations of loops and runs: `loop_succ` takes one step off a loop, and `run_eq_some_iff` splits
a run with a result into its loop and the flush at the end. A loop that fails does so in its last
step (`exists_step_of_loop_error`).

More steps change nothing about a result (`run_add_of_some`), so a machine **ends** in one way at
most (`Ends.unique`). Two machines **end alike** when whatever result one of them ends with, the
other does so too, and in the same state.
-/

namespace WordMachine

namespace Machine

open WordMachine.Action

variable {symbols : SymbolTable} {fuel : Nat} {m m' : Machine} {e : MachineError}

/-- Why a run halts after the instruction at `pc`, if it does. -/
def haltReason? (m : Machine) (pc : Word) (control : Control) : Option HaltReason :=
  if m.haltAt = some pc then some .breakpoint else control.halt

/-- A machine that is told nothing halts when its instruction does. -/
theorem haltReason?_of_haltAt_none (h : m.haltAt = none) (pc : Word) (control : Control) :
    m.haltReason? pc control = control.halt := by
  rw [haltReason?, h, if_neg (Option.some_ne_none pc).symm]

/-- One step of a loop, and the loop from there on. -/
theorem loop_succ (symbols : SymbolTable) (fuel : Nat) (m : Machine) :
    loop symbols (fuel + 1) m =
      match step symbols m with
      | .error e m' => (m', some (.error e))
      | .ok control m' =>
        match m'.haltReason? m.pc control with
        | some reason => (m', some (.ok ⟨m.pc, reason⟩))
        | none => loop symbols fuel m' := by
  rw [loop]
  cases step symbols m with
  | error e m' => rfl
  | ok control m' =>
    simp only [haltReason?]
    split
    · rfl
    · cases control.halt <;> rfl

/-- A loop ends with a step that fails. -/
theorem loop_succ_of_error (h : step symbols m = .error e m') (fuel : Nat) :
    loop symbols (fuel + 1) m = (m', some (.error e)) := by
  rw [loop_succ, h]

/-- A loop ends with a step that halts. -/
theorem loop_succ_of_halt {control : Control} {reason : HaltReason}
    (h : step symbols m = .ok control m') (hhalt : m'.haltReason? m.pc control = some reason)
    (fuel : Nat) : loop symbols (fuel + 1) m = (m', some (.ok ⟨m.pc, reason⟩)) := by
  simp only [loop_succ, h, hhalt]

/-- A loop goes on from a step that does not halt. -/
theorem loop_succ_of_none {control : Control} (h : step symbols m = .ok control m')
    (hhalt : m'.haltReason? m.pc control = none) (fuel : Nat) :
    loop symbols (fuel + 1) m = loop symbols fuel m' := by
  simp only [loop_succ, h, hhalt]

/-- A loop that was cut off can be taken up again. -/
theorem loop_add_of_none {s : Machine} (h : loop symbols fuel m = (s, none)) (more : Nat) :
    loop symbols (fuel + more) m = loop symbols more s := by
  induction fuel generalizing m with
  | zero =>
    cases h
    rw [Nat.zero_add]
  | succ fuel ih =>
    rw [Nat.succ_add, loop_succ]
    rw [loop_succ] at h
    cases hstep : step symbols m with
    | error e f =>
      rw [hstep] at h
      cases h
    | ok control m₁ =>
      simp only [hstep] at h ⊢
      cases hhalt : m₁.haltReason? m.pc control with
      | some reason =>
        rw [hhalt] at h
        cases h
      | none =>
        rw [hhalt] at h
        exact ih h

/-- A loop that has ended stays as it is. -/
theorem loop_add_of_some {result : Except MachineError Halt}
    (h : loop symbols fuel m = (m', some result)) (more : Nat) :
    loop symbols (fuel + more) m = (m', some result) := by
  induction fuel generalizing m with
  | zero => cases h
  | succ fuel ih =>
    rw [Nat.succ_add, loop_succ]
    rw [loop_succ] at h
    cases hstep : step symbols m with
    | error e f =>
      rw [hstep] at h
      exact h
    | ok control m₁ =>
      simp only [hstep] at h ⊢
      cases hhalt : m₁.haltReason? m.pc control with
      | some reason =>
        rw [hhalt] at h
        exact h
      | none =>
        rw [hhalt] at h
        exact ih h

/-- A loop that fails does so in a step, after steps that neither failed nor halted. -/
theorem exists_step_of_loop_error (h : loop symbols fuel m = (m', some (.error e))) :
    ∃ n s, n < fuel ∧ loop symbols n m = (s, none) ∧ step symbols s = .error e m' := by
  induction fuel generalizing m with
  | zero => cases h
  | succ fuel ih =>
    rw [loop_succ] at h
    cases hstep : step symbols m with
    | error e' f =>
      rw [hstep] at h
      cases h
      exact ⟨0, m, Nat.succ_pos fuel, rfl, hstep⟩
    | ok control m₁ =>
      simp only [hstep] at h
      cases hhalt : m₁.haltReason? m.pc control with
      | some reason =>
        rw [hhalt] at h
        cases h
      | none =>
        -- The loop goes on, so the step that fails is found behind this one.
        rw [hhalt] at h
        obtain ⟨n, s, hn, hloop, hfail⟩ := ih h
        refine ⟨n + 1, s, Nat.succ_lt_succ hn, ?_, hfail⟩
        simp only [loop_succ, hstep, hhalt, hloop]

/-- The flush at the end is tried whatever the result, and its failure counts only if there was no
other. -/
theorem finish_eq (m : Machine) (result : Except MachineError Halt) :
    finish m result =
      (flush.after m,
        if m.output.flushes m.output.flushed then result
        else result.bind fun _ => .error (.device .flushFailed)) := by
  rw [finish, after, flush_apply]
  cases m.output.flushes m.output.flushed <;> rfl

/-- A run has a result when its loop has one, and then flushes the output. -/
theorem run_eq_some_iff {result : Except MachineError Halt} :
    run symbols fuel m = (m', some result) ↔
      ∃ s result₀, loop symbols fuel m = (s, some result₀) ∧ finish s result₀ = (m', result) := by
  rw [run]
  rcases loop symbols fuel m with ⟨s, _ | result₀⟩
  · simp
  · simp [Prod.ext_iff]

/-- A run is its loop, and a flush if the loop ends. -/
theorem run_fst (symbols : SymbolTable) (fuel : Nat) (m : Machine) :
    (run symbols fuel m).1 = (loop symbols fuel m).1 ∨
      (run symbols fuel m).1 = flush.after (loop symbols fuel m).1 := by
  cases hloop : loop symbols fuel m with
  | mk last result =>
    cases result with
    | none =>
      left
      rw [run, hloop]
    | some result =>
      right
      have hrun := run_eq_some_iff.mpr ⟨last, result, hloop, finish_eq last result⟩
      rw [hrun]

/-- A run that halts does so in its loop, and then flushes the output. -/
theorem run_eq_ok {halt : Halt} (h : run symbols fuel m = (m', some (.ok halt))) :
    ∃ s, loop symbols fuel m = (s, some (.ok halt)) ∧ m' = flush.after s := by
  obtain ⟨s, result, hloop, hfinish⟩ := run_eq_some_iff.mp h
  rw [finish_eq, Prod.mk.injEq] at hfinish
  obtain ⟨rfl, hresult⟩ := hfinish
  cases result with
  | error e => simp [Except.bind] at hresult
  | ok halt' =>
    refine ⟨s, ?_, rfl⟩
    split at hresult
    · rw [hloop, hresult]
    · cases hresult

/-- A run whose loop fails does so too. -/
theorem run_of_loop_error {s : Machine} (h : loop symbols fuel m = (s, some (.error e))) :
    run symbols fuel m = (flush.after s, some (.error e)) := by
  refine run_eq_some_iff.mpr ⟨s, .error e, h, ?_⟩
  rw [finish_eq, Except.bind, ite_self]

/-- A run whose first step fails ends there. -/
theorem run_of_step_error (h : step symbols m = .error e m') :
    run symbols (fuel + 1) m = (flush.after m', some (.error e)) :=
  run_of_loop_error (loop_succ_of_error h fuel)

/-- A run whose loop halts does so too, if the output can be flushed. -/
theorem run_of_loop_ok {s : Machine} {halt : Halt}
    (h : loop symbols fuel m = (s, some (.ok halt)))
    (hflushes : s.output.flushes s.output.flushed = true) :
    run symbols fuel m = (flush.after s, some (.ok halt)) := by
  refine run_eq_some_iff.mpr ⟨s, .ok halt, h, ?_⟩
  rw [finish_eq, if_pos hflushes]

/-- A run that fails does so in a step of its loop, or in the flush after a halt. -/
theorem run_eq_error (h : run symbols fuel m = (m', some (.error e))) :
    (∃ n s failed, loop symbols n m = (s, none) ∧ step symbols s = .error e failed ∧
        m' = flush.after failed) ∨
      ∃ halted halt, loop symbols fuel m = (halted, some (.ok halt)) ∧
        e = .device .flushFailed ∧ m' = flush.after halted := by
  obtain ⟨s, result, hloop, hfinish⟩ := run_eq_some_iff.mp h
  rw [finish_eq, Prod.mk.injEq] at hfinish
  obtain ⟨rfl, hresult⟩ := hfinish
  cases result with
  | error e' =>
    obtain ⟨n, s₀, -, hbefore, hstep⟩ := exists_step_of_loop_error hloop
    have he : e' = e := by simpa [Except.bind] using hresult
    subst he
    exact .inl ⟨n, s₀, s, hbefore, hstep, rfl⟩
  | ok halt =>
    refine .inr ⟨s, halt, hloop, ?_, rfl⟩
    split at hresult <;> cases hresult
    rfl

/-! ### Ends of runs -/

theorem run_add_of_none {s : Machine} (h : loop symbols fuel m = (s, none)) (more : Nat) :
    run symbols (fuel + more) m = run symbols more s := by
  rw [run, run, loop_add_of_none h]

theorem run_add_of_some {result : Except MachineError Halt}
    (h : run symbols fuel m = (m', some result)) (more : Nat) :
    run symbols (fuel + more) m = (m', some result) := by
  obtain ⟨s, result₀, hloop, hfinish⟩ := run_eq_some_iff.mp h
  exact run_eq_some_iff.mpr ⟨s, result₀, loop_add_of_some hloop more, hfinish⟩

/-- The run of `m` **ends** with a result in the machine `m'`, after any number of steps. -/
def Ends (symbols : SymbolTable) (m : Machine) (result : Except MachineError Halt)
    (m' : Machine) : Prop :=
  ∃ fuel, run symbols fuel m = (m', some result)

/-- A run ends in one way at most. -/
theorem Ends.unique {result result' : Except MachineError Halt} {f f' : Machine}
    (h : Ends symbols m result f) (h' : Ends symbols m result' f') :
    result = result' ∧ f = f' := by
  obtain ⟨n, hn⟩ := h
  obtain ⟨n', hn'⟩ := h'
  have hlong := run_add_of_some hn n'
  rw [Nat.add_comm, run_add_of_some hn' n, Prod.mk.injEq, Option.some.injEq] at hlong
  exact ⟨hlong.2.symm, hlong.1.symm⟩

/-- Two runs **end alike** when each ends with every result that the other ends with, and in the
same state. In particular both end or neither does. -/
def EndAlike (symbols : SymbolTable) (m m' : Machine) : Prop :=
  ∀ result,
    (∀ f, Ends symbols m result f → ∃ f', Ends symbols m' result f' ∧ f.SameState f') ∧
      ∀ f', Ends symbols m' result f' → ∃ f, Ends symbols m result f ∧ f.SameState f'

/-- Runs end alike when one has always done `lead` steps more than the other. -/
theorem EndAlike.of_run (lead : Nat)
    (h : ∀ n, (run symbols n m).2 = (run symbols (lead + n) m').2 ∧
      (run symbols n m).1.SameState (run symbols (lead + n) m').1) : EndAlike symbols m m' := by
  intro result
  constructor
  · rintro f ⟨n, hn⟩
    obtain ⟨hresult, hsame⟩ := h n
    rw [hn] at hresult hsame
    exact ⟨_, ⟨lead + n, Prod.ext rfl hresult.symm⟩, hsame⟩
  · rintro f' ⟨n, hn⟩
    obtain ⟨hresult, hsame⟩ := h n
    rw [Nat.add_comm, run_add_of_some hn lead] at hresult hsame
    exact ⟨_, ⟨n, Prod.ext rfl hresult⟩, hsame⟩

end Machine

end WordMachine
