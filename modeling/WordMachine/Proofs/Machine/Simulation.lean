import WordMachine.Proofs.Machine.Effect
import WordMachine.Proofs.Machine.Lockstep

/-!
# Steps in lockstep

A step traces its instruction, announces and performs the effect, traces the registers and moves on
(`step_apply`). All but the dealings with devices is the same in machines with the same core that
stand at the same instruction. So a relation of such machines need only be **respected** by the
devices and by the changes of core and program counter for steps to be in lockstep on it
(`Respected.lockstep_step`). Flushes are in lockstep where the outputs give the same answers;
tracing, writing and reading are left to the relation.
-/

namespace WordMachine

open WordMachine.Action

namespace Machine

variable {symbols : SymbolTable} {excused : MachineError → Prop} {R : Machine → Machine → Prop}
  {m m' : Machine}

/-- A step, part by part. -/
theorem step_apply (symbols : SymbolTable) (m : Machine) :
    step symbols m =
      match m.fetch with
      | .error e => .error (.badInstruction m.pc e) m
      | .ok (i, length) =>
        let next := m.pc + UInt16.ofNat length
        (do trace fun _ => instructionLine symbols m.pc i
            announce (i.remark? m.core)
            let control ← perform m.pc next (i.effect m.core m.pc next)
            traceRegisters
            proceed control
            return control) m := by
  simp only [step, carryOut, bind_apply, get_apply]
  cases m.fetch with
  | error e => rfl
  | ok fetched =>
    simp only [bind_apply]
    cases h : trace (fun _ => instructionLine symbols m.pc fetched.1) m with
    | error e m₁ => rfl
    | ok a m₁ =>
      -- Tracing has left the core alone, so the effect is that in the machine before.
      simp only [execute_apply, bind_apply, ((quiet_trace _).of_ok h).core_eq]
      cases announce (fetched.1.remark? m₁.core) m₁ <;> rfl

/-- Within the program that was loaded, instructions are fetched from the image. -/
theorem fetch_of_image {image : Image} (hmemory : m.memory = .ofImage image)
    (h : m.pc.toNat + 4 ≤ image.words.size) :
    m.fetch = Instruction.decode image.words m.pc.toNat := by
  rw [fetch, hmemory, Instruction.decode, Memory.extract_words_ofImage h, Instruction.decode]

/-- The machine after an instruction: the program counter moves on, unless the machine halts. -/
def proceeded (m : Machine) (control : Control) : Machine :=
  if control.halt.isNone then { m with pc := control.next } else m

theorem proceed_apply (control : Control) (m : Machine) :
    proceed control m = .ok () (m.proceeded control) := by
  rw [proceed, proceeded]
  split <;> rfl

theorem AgreeButTrace.proceeded (h : AgreeButTrace m m') (control : Control) :
    AgreeButTrace (m.proceeded control) (m'.proceeded control) := by
  rw [Machine.proceeded, Machine.proceeded]
  split
  · exact { h with pc := rfl }
  · exact h

/-- What a step does when it succeeds: up to tracing, it performs the effect of the instruction and
moves on. -/
theorem exists_perform_of_step {control : Control} (h : step symbols m = .ok control m') :
    ∃ i length m₁ done, m.fetch = .ok (i, length) ∧ m.AgreeButTrace m₁ ∧
      perform m.pc (m.pc + UInt16.ofNat length)
          (i.effect m.core m.pc (m.pc + UInt16.ofNat length)) m₁ = .ok control done ∧
        (done.proceeded control).AgreeButTrace m' := by
  rw [step_apply] at h
  cases hfetch : m.fetch with
  | error e =>
    rw [hfetch] at h
    cases h
  | ok fetched =>
    obtain ⟨i, length⟩ := fetched
    rw [hfetch] at h
    obtain ⟨_, m₁, htrace, h⟩ := bind_eq_ok_iff.mp h
    obtain ⟨_, m₂, hannounce, h⟩ := bind_eq_ok_iff.mp h
    obtain ⟨control', done, hperform, h⟩ := bind_eq_ok_iff.mp h
    obtain ⟨_, dumped, hdump, h⟩ := bind_eq_ok_iff.mp h
    rw [bind_apply, proceed_apply] at h
    cases h
    -- What comes before the effect is tracing, and so is what comes after it but for moving on.
    exact ⟨i, length, m₂, done, rfl,
      ((quiet_trace _).of_ok htrace).trans ((quiet_announce _).of_ok hannounce), hperform,
      (quiet_traceRegisters.of_ok hdump).proceeded control⟩

/-- Where there is no tracer, tracing is in lockstep. -/
theorem lockstep_trace_of_untraced
    (h : ∀ ⦃m m'⦄, R m m' → m.tracer = none ∧ m'.tracer = none) (line : Machine → String) :
    LockstepUnless excused R (trace line) (trace line) := by
  intro m m' hR
  rw [trace_of_untraced (h hR).1, trace_of_untraced (h hR).2]
  exact .ok () hR

theorem lockstep_traceRegisters_of_untraced
    (h : ∀ ⦃m m'⦄, R m m' → m.tracer = none ∧ m'.tracer = none) :
    LockstepUnless excused R traceRegisters traceRegisters := by
  intro m m' hR
  rw [traceRegisters_of_untraced (h hR).1, traceRegisters_of_untraced (h hR).2]
  exact .ok () hR

/-- Writing is in lockstep where the same bytes are taken. -/
theorem lockstep_writeByte_of_takes
    (htakes : ∀ ⦃m m'⦄, R m m' →
      m.output.takes m.output.offered = m'.output.takes m'.output.offered)
    (hoffered : ∀ ⦃m m'⦄, R m m' →
      R { m with output := m.output.offer.2 } { m' with output := m'.output.offer.2 })
    (hnote : ∀ event ⦃m m'⦄, R m m' →
      R { m with journal := m.journal.push event } { m' with journal := m'.journal.push event })
    (b : UInt8) : LockstepUnless excused R (writeByte b) (writeByte b) := by
  intro m m' hR
  rw [writeByte_apply, writeByte_apply, htakes hR]
  split
  · exact .ok () (hnote _ (hoffered hR))
  · exact .error _ (hoffered hR)

/-- Reading is in lockstep where the answers are the same. -/
theorem lockstep_readByte_of_answer
    (hanswer : ∀ ⦃m m'⦄, R m m' → m.input.request.answer = m'.input.request.answer)
    (hrequested : ∀ ⦃m m'⦄, R m m' → R m.requested m'.requested)
    (hnote : ∀ event, event.written? = none → ∀ ⦃m m'⦄, R m m' →
      R { m with journal := m.journal.push event } { m' with journal := m'.journal.push event })
    (pc : Word) : LockstepUnless excused R (readByte pc) (readByte pc) := by
  intro m m' hR
  rw [readByte_apply, readByte_apply, hanswer hR]
  cases m'.input.request.answer with
  | byte b => exact .ok b (hnote _ rfl (hrequested hR))
  | ended => exact .error _ (hrequested hR)
  | failed => exact .error _ (hrequested hR)
  | interrupted => exact .error _ (hrequested hR)

/-- A relation of machines is **respected** when related machines have the same core, stand at the
same instruction and get the same answers to flushes; when it is kept by changes of the core and the
program counter, by flushes and by notes of anything but a write; and when tracing, writing and
reading are in lockstep on it. -/
structure Respected (excused : MachineError → Prop) (R : Machine → Machine → Prop) : Prop where
  core_eq : ∀ ⦃m m'⦄, R m m' → m.core = m'.core
  pc_eq : ∀ ⦃m m'⦄, R m m' → m.pc = m'.pc
  flushes : ∀ ⦃m m'⦄, R m m' →
    m.output.flushes m.output.flushed = m'.output.flushes m'.output.flushed
  withCore : ∀ core ⦃m m'⦄, R m m' → R (m.withCore core) (m'.withCore core)
  withPc : ∀ pc ⦃m m'⦄, R m m' → R { m with pc := pc } { m' with pc := pc }
  flushed : ∀ ⦃m m'⦄, R m m' →
    R { m with output := m.output.flush.2 } { m' with output := m'.output.flush.2 }
  note : ∀ event, event.written? = none → ∀ ⦃m m'⦄, R m m' →
    R { m with journal := m.journal.push event } { m' with journal := m'.journal.push event }
  trace : ∀ line, LockstepUnless excused R (trace line) (trace line)
  traceRegisters : LockstepUnless excused R traceRegisters traceRegisters
  writeByte : ∀ b, LockstepUnless excused R (writeByte b) (writeByte b)
  readByte : ∀ pc, LockstepUnless excused R (readByte pc) (readByte pc)

namespace Respected

/-- A flush is in lockstep, whatever may be excused elsewhere. -/
theorem lockstep_flush {excused' : MachineError → Prop} (h : Respected excused R) :
    LockstepUnless excused' R Machine.flush Machine.flush := by
  intro m m' hR
  rw [flush_apply, flush_apply, h.flushes hR]
  split
  · exact .ok () (h.note _ rfl (h.flushed hR))
  · exact .error _ (h.note _ rfl (h.flushed hR))

private theorem lockstep_announce (h : Respected excused R) (remark : Option String) :
    LockstepUnless excused R (announce remark) (announce remark) := by
  cases remark with
  | none => exact .pure ()
  | some line => exact h.trace fun _ => line

private theorem lockstep_setRegister (h : Respected excused R) (target : Register) (value : Word) :
    LockstepUnless excused R (setRegister target value) (setRegister target value) := by
  refine .modify fun m m' hR => ?_
  -- The registers are part of the core, which is the same in both machines.
  change R (m.withCore (m.core.setRegister target value))
    (m'.withCore (m'.core.setRegister target value))
  rw [← h.core_eq hR]
  exact h.withCore _ hR

private theorem lockstep_perform (h : Respected excused R) (pc next : Word) (effect : Effect) :
    LockstepUnless excused R (perform pc next effect) (perform pc next effect) := by
  cases effect with
  | fault e => exact .throw e
  | compute core control => exact .bind (.modify (h.withCore core)) fun _ => .pure control
  | emit b => exact .bind (h.writeByte b) fun _ => .pure _
  | receive target =>
    exact .bind h.lockstep_flush fun _ => .bind (h.readByte pc) fun b =>
      .bind (h.lockstep_setRegister target _) fun _ => .pure _

private theorem lockstep_proceed (h : Respected excused R) (control : Control) :
    LockstepUnless excused R (proceed control) (proceed control) := by
  rw [proceed]
  split
  · exact .modify (h.withPc control.next)
  · exact .pure ()

/-- Steps are in lockstep on every relation that is respected. -/
theorem lockstep_step (h : Respected excused R) (symbols : SymbolTable) :
    LockstepUnless excused R (step symbols) (step symbols) := by
  intro m m' hR
  have hcore := h.core_eq hR
  have hfetch : m.fetch = m'.fetch := by
    rw [fetch, fetch, h.pc_eq hR, show m.memory = m'.memory from congrArg Core.memory hcore]
  rw [step_apply, step_apply, hfetch, h.pc_eq hR, hcore]
  cases m'.fetch with
  | error e => exact .error _ hR
  | ok fetched =>
    refine LockstepUnless.bind (h.trace _) (fun _ => ?_) hR
    refine .bind (h.lockstep_announce _) fun _ => .bind (h.lockstep_perform _ _ _) fun control => ?_
    exact .bind h.traceRegisters fun _ => .bind (h.lockstep_proceed control) fun _ => .pure control

end Respected

end Machine

end WordMachine
