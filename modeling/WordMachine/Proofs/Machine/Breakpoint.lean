import WordMachine.Proofs.Machine.Resumption

/-!
# Breakpoints

A machine that is told to stop at an address carries out the very steps that it would carry out
anyway, up to and including the first one at that address (`breakpoint_exact`). When it is run again
from there, without the address, it ends as if it had never been stopped. That holds also if the
instruction there halts the machine: the run reports the address first, and when it is run again the
machine halts at the same place.

The two runs up to the stop are in lockstep on `StopsAt`. After it, the machine that was stopped and
the one that was not are alike: all that tells them apart is one more flush of the output.
-/

namespace WordMachine

open WordMachine.Action

namespace Machine

variable {symbols : SymbolTable} {a : Word} {m m' : Machine} {control : Control}

/-! ### Halting changes nothing -/

/-- An instruction that halts leaves the core as it is, and does not call that a breakpoint. -/
private theorem effect_halts {i : Instruction} {core core' : Core} {pc next : Word}
    {reason : HaltReason}
    (h : i.effect core pc next = .compute core' control) (hhalt : control.halt = some reason) :
    core' = core ∧ reason ≠ .breakpoint := by
  cases i with
  | halt =>
    cases h
    cases hhalt
    exact ⟨rfl, by decide⟩
  | ret =>
    simp only [Instruction.effect] at h
    split at h <;> cases h <;> cases hhalt
    exact ⟨rfl, by decide⟩
  | pop | binary | load | store =>
    simp only [Instruction.effect] at h
    split at h <;> cases h
    cases hhalt
  | _ => cases h <;> cases hhalt

/-- Dealing with a device does not halt the machine. -/
private theorem perform_halts {i : Instruction} {pc next : Word} {reason : HaltReason}
    (h : perform pc next (i.effect m.core pc next) m = .ok control m')
    (hhalt : control.halt = some reason) : m' = m ∧ reason ≠ .breakpoint := by
  cases heffect : i.effect m.core pc next with
  | fault e =>
    rw [heffect] at h
    cases h
  | compute core control' =>
    rw [heffect] at h
    cases h
    obtain ⟨rfl, hreason⟩ := effect_halts heffect hhalt
    exact ⟨m.withCore_core, hreason⟩
  | emit b =>
    rw [heffect] at h
    obtain ⟨_, m₁, -, h⟩ := bind_eq_ok_iff.mp h
    cases h
    cases hhalt
  | receive target =>
    rw [heffect] at h
    obtain ⟨_, m₁, -, h⟩ := bind_eq_ok_iff.mp h
    obtain ⟨_, m₂, -, h⟩ := bind_eq_ok_iff.mp h
    obtain ⟨_, m₃, -, h⟩ := bind_eq_ok_iff.mp h
    cases h
    cases hhalt

/-- A step that halts changes nothing but for tracing, and never reports a breakpoint itself. -/
private theorem step_halts {reason : HaltReason} (h : step symbols m = .ok control m')
    (hhalt : control.halt = some reason) : m.AgreeButTrace m' ∧ reason ≠ .breakpoint := by
  obtain ⟨i, length, m₁, done, -, hbefore, hdone, hafter⟩ := exists_perform_of_step h
  rw [hbefore.core_eq] at hdone
  obtain ⟨rfl, hreason⟩ := perform_halts hdone hhalt
  rw [proceeded, hhalt] at hafter
  exact ⟨hbefore.trans hafter, hreason⟩

/-! ### Told to stop -/

/-- The machine told where to stop. -/
def withHaltAt (m : Machine) (haltAt : Option Word) : Machine := { m with haltAt }

/-- The second machine is the first one told to stop at `a`. The first one is told nothing, and its
flushes succeed. -/
structure StopsAt (a : Word) (m m' : Machine) : Prop where
  eq : m' = m.withHaltAt (some a)
  haltAt : m.haltAt = none
  untraced : m.tracer = none
  flushes : ∀ n, m.output.flushes n = true

private theorem StopsAt.untraced' (h : StopsAt a m m') : m'.tracer = none := by
  rw [h.eq]
  exact h.untraced

private theorem respected_stopsAt (a : Word) : Respected (fun _ => False) (StopsAt a) where
  core_eq _ _ h := by rw [h.eq]; rfl
  pc_eq _ _ h := by rw [h.eq]; rfl
  flushes _ _ h := by rw [h.eq]; rfl
  withCore _ _ _ h := { h with eq := by rw [h.eq]; rfl }
  withPc _ _ _ h := { h with eq := by rw [h.eq]; rfl }
  flushed _ _ h := { h with eq := by rw [h.eq]; rfl }
  note _ _ _ _ h := { h with eq := by rw [h.eq]; rfl }
  trace := lockstep_trace_of_untraced fun _ _ h => ⟨h.untraced, h.untraced'⟩
  traceRegisters := lockstep_traceRegisters_of_untraced fun _ _ h => ⟨h.untraced, h.untraced'⟩
  writeByte := lockstep_writeByte_of_takes (fun _ _ h => by rw [h.eq]; rfl)
    (fun _ _ h => { h with eq := by rw [h.eq]; rfl }) fun _ _ _ h =>
      { h with eq := by rw [h.eq]; rfl }
  readByte := lockstep_readByte_of_answer (fun _ _ h => by rw [h.eq]; rfl)
    (fun _ _ h => { h with eq := by rw [h.eq]; rfl }) fun _ _ _ _ h =>
      { h with eq := by rw [h.eq]; rfl }

/-! ### The first time at an address -/

/-- The loop of `m` first stands at the address `a` after `k` steps, in the machine `s`. -/
structure FirstAt (symbols : SymbolTable) (m : Machine) (a : Word) (k : Nat) (s : Machine) :
    Prop where
  reached : loop symbols k m = (s, none)
  pc_eq : s.pc = a
  before : ∀ j < k, (loop symbols j m).1.pc ≠ a

theorem FirstAt.zero (h : m.pc = a) : FirstAt symbols m a 0 m := ⟨rfl, h, nofun⟩

theorem FirstAt.succ {k : Nat} {s : Machine} (hpc : m.pc ≠ a)
    (hstep : step symbols m = .ok control m') (hgoes : m'.haltReason? m.pc control = none)
    (h : FirstAt symbols m' a k s) : FirstAt symbols m a (k + 1) s where
  reached := (loop_succ_of_none hstep hgoes k).trans h.reached
  pc_eq := h.pc_eq
  before j hj := by
    cases j with
    | zero => exact hpc
    | succ j =>
      rw [loop_succ_of_none hstep hgoes]
      exact h.before j (Nat.lt_of_succ_lt_succ hj)

/-- A loop that is to stop at an address does so when the other loop has carried out the instruction
there for the first time. Until then the two are in lockstep, and no breakpoint is reported. -/
private theorem loop_stopsAt (symbols : SymbolTable) (fuel : Nat) (h : StopsAt a m m') :
    (∃ k s t control s' t', k < fuel ∧ FirstAt symbols m a k s ∧ StopsAt a s t ∧
        step symbols s = .ok control s' ∧ StopsAt a s' t' ∧
          loop symbols fuel m' = (t', some (.ok ⟨a, .breakpoint⟩))) ∨
      (∀ pc, (loop symbols fuel m).2 ≠ some (.ok ⟨pc, .breakpoint⟩)) ∧
        (loop symbols fuel m).2 = (loop symbols fuel m').2 ∧
          StopsAt a (loop symbols fuel m).1 (loop symbols fuel m').1 := by
  induction fuel generalizing m m' with
  | zero => exact .inr ⟨nofun, rfl, h⟩
  | succ fuel ih =>
    have hpc := (respected_stopsAt a).pc_eq h
    have hmatch := (respected_stopsAt a).lockstep_step symbols h
    generalize hstep : step symbols m = outcome at hmatch
    generalize hstep' : step symbols m' = outcome' at hmatch
    cases hmatch with
    | excused he => exact he.elim
    | error e h₁ =>
      rw [loop_succ_of_error hstep, loop_succ_of_error hstep']
      exact .inr ⟨nofun, rfl, h₁⟩
    | @ok control m₁ m₁' h₁ =>
      have htold : m₁'.haltAt = some a := by rw [h₁.eq]; rfl
      by_cases hat : m.pc = a
      · -- The instruction at the address has been carried out.
        refine .inl ⟨0, m, m', control, m₁, m₁', fuel.succ_pos, .zero hat, h, hstep, h₁, ?_⟩
        have hstop : m₁'.haltReason? m'.pc control = some .breakpoint := by
          rw [haltReason?, htold, ← hpc, hat, if_pos rfl]
        rw [loop_succ_of_halt hstep' hstop, ← hpc, hat]
      · have hfree := haltReason?_of_haltAt_none h₁.haltAt m.pc control
        have hsame : m₁'.haltReason? m'.pc control = control.halt := by
          rw [haltReason?, htold, ← hpc, if_neg fun h => hat (Option.some_inj.mp h).symm]
        cases hhalt : control.halt with
        | some reason =>
          obtain ⟨-, hreason⟩ := step_halts hstep hhalt
          rw [loop_succ_of_halt hstep (hfree.trans hhalt),
            loop_succ_of_halt hstep' (hsame.trans hhalt), hpc]
          exact .inr ⟨fun pc heq => hreason (by cases heq; rfl), rfl, h₁⟩
        | none =>
          have hgoes := hfree.trans hhalt
          rw [loop_succ_of_none hstep hgoes, loop_succ_of_none hstep' (hsame.trans hhalt)]
          obtain ⟨k, s, t, c, s', t', hk, hfirst, hlast⟩ | hlockstep := ih h₁
          · exact .inl
              ⟨k + 1, s, t, c, s', t', Nat.succ_lt_succ hk, hfirst.succ hat hstep hgoes, hlast⟩
          · exact .inr hlockstep

/-! ### Going on from a breakpoint -/

private theorem StopsAt.flush (h : StopsAt a m m') :
    StopsAt a (flush.after m) (flush.after m') := by
  rw [after_flush, after_flush]
  exact { h with eq := by rw [h.eq]; rfl }

private theorem StopsAt.withHaltAt_none (h : StopsAt a m m') : m'.withHaltAt none = m := by
  rw [h.eq, ← h.haltAt]
  rfl

section

variable {k : Nat} {s t s' t' : Machine}

/-- The machine that was stopped, run again with nothing told, has always done the steps of the
machine that was never stopped, and a constant number less. -/
private theorem run_stopped (hfirst : FirstAt symbols m a k s) (hs : StopsAt a s t)
    (hstep : step symbols s = .ok control s') (hs' : StopsAt a s' t') :
    ∃ lead, ∀ n, (run symbols n (flush.after s')).2 = (run symbols (lead + n) m).2 ∧
      (run symbols n (flush.after s')).1.SameState (run symbols (lead + n) m).1 := by
  have halike : Alike (flush.after s') s' := alike_flush hs'.untraced hs'.flushes
  have hgoes := haltReason?_of_haltAt_none hs'.haltAt s.pc control
  cases hhalt : control.halt with
  | some reason =>
    -- The step changed nothing, so it is done once more: the lead is what comes before it.
    obtain ⟨hagree, -⟩ := step_halts hstep hhalt
    refine ⟨k, fun n => ?_⟩
    obtain ⟨hresult, hlast⟩ := (halike.congr_right hagree.symm hs.untraced).run symbols n
    rw [run_add_of_none hfirst.reached]
    exact ⟨hresult, hlast.sameState⟩
  | none =>
    have hreached : loop symbols (k + 1) m = (s', none) := by
      rw [loop_add_of_none hfirst.reached, loop_succ_of_none hstep (hgoes.trans hhalt), loop]
    refine ⟨k + 1, fun n => ?_⟩
    obtain ⟨hresult, hlast⟩ := halike.run symbols n
    rw [run_add_of_none hreached]
    exact ⟨hresult, hlast.sameState⟩

/-- An instruction that halts does so again when the machine that was stopped there is run again. -/
private theorem ends_stopped {reason : HaltReason} (hpc : s.pc = a) (hs : StopsAt a s t)
    (hstep : step symbols s = .ok control s') (hs' : StopsAt a s' t')
    (hhalt : control.halt = some reason) :
    ∃ f, Ends symbols (flush.after s') (.ok ⟨a, reason⟩) f := by
  obtain ⟨hagree, -⟩ := step_halts hstep hhalt
  have halike : Alike (flush.after s') s :=
    (alike_flush hs'.untraced hs'.flushes).congr_right hagree.symm hs.untraced
  have hreason : s'.haltReason? s.pc control = some reason :=
    (haltReason?_of_haltAt_none hs'.haltAt s.pc control).trans hhalt
  have hrun : run symbols 1 s = (flush.after s', some (.ok ⟨a, reason⟩)) :=
    hpc ▸ run_of_loop_ok (loop_succ_of_halt hstep hreason 0) (hs'.flushes _)
  obtain ⟨hresult, -⟩ := halike.run symbols 1
  rw [hrun] at hresult
  exact ⟨_, 1, Prod.ext rfl hresult⟩

end

/-! ### The main result -/

/-- **Breakpoints are transparent.** Take a machine without a tracer whose flushes succeed, with any
program, any input and any other behaviour of the output.

If a run that is to stop at the address `a` reports a breakpoint, then it is the one at `a`, and the
run has done the steps of the machine that is told nothing, up to and including the first one at
`a`, and the flush at the end. Run again and told nothing, the machine ends as that machine does, in
the same state and with the same result; and if the instruction at `a` halts, then it halts there.

If the run reports no breakpoint, it is that of the machine that is told nothing. -/
theorem breakpoint_exact (symbols : SymbolTable) (m : Machine) (a : Word)
    (huntraced : m.tracer = none) (hflushes : ∀ n, m.output.flushes n = true) (fuel : Nat) :
    (∀ p stopped, run symbols fuel (m.withHaltAt (some a)) =
        (stopped, some (.ok ⟨p, .breakpoint⟩)) →
      p = a ∧ ∃ k s control done, k < fuel ∧ FirstAt symbols (m.withHaltAt none) a k s ∧
        step symbols s = .ok control done ∧
        stopped = (flush.after done).withHaltAt (some a) ∧
        EndAlike symbols (stopped.withHaltAt none) (m.withHaltAt none) ∧
        ∀ reason, control.halt = some reason →
          ∃ f, Ends symbols (stopped.withHaltAt none) (.ok ⟨a, reason⟩) f) ∧
    ((∀ p, (run symbols fuel (m.withHaltAt (some a))).2 ≠ some (.ok ⟨p, .breakpoint⟩)) →
      run symbols fuel (m.withHaltAt (some a)) =
        ((run symbols fuel (m.withHaltAt none)).1.withHaltAt (some a),
          (run symbols fuel (m.withHaltAt none)).2)) := by
  have hstart : StopsAt a (m.withHaltAt none) (m.withHaltAt (some a)) :=
    ⟨rfl, rfl, huntraced, hflushes⟩
  obtain ⟨k, s, t, control, s', t', hk, hfirst, hs, hstep, hs', hloop⟩ | ⟨hnever, hresult, hlast⟩ :=
    loop_stopsAt symbols fuel hstart
  · -- The run stops at the address, so it reports that and nothing else.
    have hrun := run_of_loop_ok hloop (by rw [hs'.eq]; exact hs'.flushes _)
    have hstopped := hs'.flush
    refine ⟨?_, fun hnot => absurd (by rw [hrun]) (hnot a)⟩
    intro p stopped hstop
    rw [hrun] at hstop
    cases hstop
    rw [hstopped.withHaltAt_none]
    obtain ⟨lead, hlead⟩ := run_stopped hfirst hs hstep hs'
    exact ⟨rfl, k, s, control, s', hk, hfirst, hstep, hstopped.eq, .of_run lead hlead,
      fun reason => ends_stopped hfirst.pc_eq hs hstep hs'⟩
  · -- The loops are in lockstep to their ends, and so are the runs.
    refine ⟨fun p stopped hstop => ?_, fun _ => ?_⟩
    · obtain ⟨f, hloop, -⟩ := run_eq_ok hstop
      exact absurd (hresult.trans (by rw [hloop])) (hnever p)
    · obtain ⟨hresult, hlast⟩ :=
        lockstep_run_of_loop (respected_stopsAt a).lockstep_flush hresult hlast
      exact Prod.ext hlast.eq hresult.symm

/-- A program that returns at once. -/
def returnImage : Image := ⟨#[18, 0, 0, 0], by decide⟩

/-- A machine that is about to return with an empty stack. -/
def returning : Machine := .ofImage returnImage

private theorem step_returning (haltAt : Option Word) :
    step .empty (returning.withHaltAt haltAt) =
      .ok ⟨some .emptyReturn, 1⟩ (returning.withHaltAt haltAt) := by
  have hmemory : (returning.withHaltAt haltAt).memory = .ofImage returnImage := rfl
  have hfetch : (returning.withHaltAt haltAt).fetch = .ok (.ret, 1) :=
    (fetch_of_image hmemory (Nat.le_refl 4)).trans rfl
  rw [step_apply, hfetch]
  rfl

theorem breakpoint_exact_returning :
    returning.tracer = none ∧ (∀ n, returning.output.flushes n = true) ∧
      (∃ stopped, run .empty 1 (returning.withHaltAt (some 0)) =
          (stopped, some (.ok ⟨0, .breakpoint⟩)) ∧
        EndAlike .empty (stopped.withHaltAt none) (returning.withHaltAt none) ∧
        ∃ f, Ends .empty (stopped.withHaltAt none) (.ok ⟨0, .emptyReturn⟩) f) ∧
      run .empty 1 (returning.withHaltAt (some 1)) =
        ((run .empty 1 (returning.withHaltAt none)).1.withHaltAt (some 1),
          (run .empty 1 (returning.withHaltAt none)).2) := by
  have huntraced : returning.tracer = none := rfl
  have hflushes (n : Nat) : returning.output.flushes n = true := rfl
  refine ⟨huntraced, hflushes, ?_, ?_⟩
  · -- Told to stop at the return, the machine reports that first.
    have hrun := run_of_loop_ok (loop_succ_of_halt (step_returning (some 0)) rfl 0) rfl
    obtain ⟨hstop, -⟩ := breakpoint_exact .empty returning 0 huntraced hflushes 1
    obtain ⟨-, k, s, control, done, hk, hfirst, hstep, -, halike, hends⟩ := hstop _ _ hrun
    refine ⟨_, hrun, halike, hends .emptyReturn ?_⟩
    obtain rfl := Nat.lt_one_iff.mp hk
    have hreached := hfirst.reached
    rw [loop, Prod.mk.injEq] at hreached
    rw [← hreached.1, step_returning, EStateM.Result.ok.injEq] at hstep
    rw [← hstep.1]
  · -- Told to stop elsewhere, it does not take notice.
    have hrun := run_of_loop_ok (loop_succ_of_halt (step_returning (some 1)) rfl 0) rfl
    obtain ⟨-, hpass⟩ := breakpoint_exact .empty returning 1 huntraced hflushes 1
    refine hpass fun p hstop => ?_
    rw [hrun] at hstop
    cases hstop

end Machine

end WordMachine
