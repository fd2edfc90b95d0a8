import WordMachine.Proofs.Machine.Frame
import WordMachine.Proofs.Machine.Input
import WordMachine.Proofs.Machine.Simulation

/-!
# What a failure leaves behind

An action **fails cleanly** at an address when its failures leave the state of the machine as it was
and carry no other address. Fetching an instruction, tracing it and carrying it out fail cleanly as
a whole (`carryOut_error`), since every device is asked before the instruction takes effect.

The registers, however, are traced when the instruction has taken effect and before the program
counter moves. A step whose register dump is refused therefore leaves an instruction half done: its
effect stays and the program counter stays (`failed_step_state`). No other failure does that.
-/

namespace WordMachine

/-- The address that an error carries, if it carries one. -/
def MachineError.pc? : MachineError → Option Word
  | badInstruction pc _ => some pc
  | addressOutOfRange pc _ => some pc
  | stackUnderflow pc => some pc
  | divisionByZero pc => some pc
  | inputExhausted pc => some pc
  | interrupted pc => some pc
  | device _ => none

/-- The error lies with the program, and not with its surroundings. -/
def MachineError.IsFault : MachineError → Prop
  | badInstruction .. | addressOutOfRange .. | stackUnderflow _ | divisionByZero _ => True
  | inputExhausted _ | device _ | interrupted _ => False

namespace Action

variable {α β : Type} {pc : Word} {x : Action α}

/-- An action **fails cleanly** at an address when its failures leave the state as it was and carry
no other address. -/
def FailsCleanly (pc : Word) (x : Action α) : Prop :=
  ∀ ⦃m e m'⦄, x m = .error e m' → m.SameState m' ∧ ∀ p ∈ e.pc?, p = pc

namespace FailsCleanly

theorem pure (a : α) : FailsCleanly pc (pure a : Action α) := by
  rintro m e m' ⟨⟩

theorem throw {e : MachineError} (he : ∀ p ∈ e.pc?, p = pc) :
    FailsCleanly pc (throw e : Action α) := by
  rintro m _ _ ⟨⟩
  exact ⟨.refl m, he⟩

theorem modify (f : Machine → Machine) : FailsCleanly pc (modify f : Action PUnit) := by
  rintro m e m' ⟨⟩

/-- Whatever follows on an action that leaves the state alone may fail, if it fails cleanly. -/
theorem bind {f : α → Action β} (hx : x.FailsCleanly pc)
    (hsame : ∀ ⦃m a m'⦄, x m = .ok a m' → m.SameState m') (hf : ∀ a, (f a).FailsCleanly pc) :
    (x >>= f).FailsCleanly pc := by
  intro m e m' h
  obtain h | ⟨a, m₁, hok, h⟩ := bind_eq_error_iff.mp h
  · exact hx h
  · obtain ⟨hsame₁, hpc⟩ := hf a h
    exact ⟨(hsame hok).trans hsame₁, hpc⟩

/-- Whatever follows on an action may change the state, if it cannot fail. -/
theorem bind_of_ok {f : α → Action β} (hx : x.FailsCleanly pc)
    (hf : ∀ a m, ∃ b m', f a m = .ok b m') : (x >>= f).FailsCleanly pc := by
  intro m e m' h
  obtain h | ⟨a, m₁, -, h⟩ := bind_eq_error_iff.mp h
  · exact hx h
  · obtain ⟨b, m₂, hok⟩ := hf a m₁
    rw [hok] at h
    cases h

end FailsCleanly

end Action

namespace Machine

open WordMachine.Action

variable {α : Type} {symbols : SymbolTable} {m m' : Machine} {e : MachineError}

/-! ### Refused lines -/

/-- Polling the switch cannot fail. -/
private theorem pollSwitch_bind_eq_error {f : Bool → Action α}
    (h : (pollSwitch >>= f) m = .error e m') :
    ∃ tracing m₁, pollSwitch m = .ok tracing m₁ ∧ f tracing m₁ = .error e m' := by
  obtain h | h := bind_eq_error_iff.mp h
  · rw [pollSwitch_apply] at h
    split at h <;> cases h
  · exact h

private theorem offerLine_error {line : String} (h : offerLine line m = .error e m') :
    e = .device .writeFailed := by
  rw [offerLine_apply] at h
  split at h
  · dsimp only at h
    split at h <;> cases h
    rfl
  · cases h

/-- All that can go wrong with a trace line is that it is refused. -/
private theorem trace_error {line : Machine → String} (h : trace line m = .error e m') :
    e = .device .writeFailed := by
  obtain ⟨tracing, m₁, -, h⟩ := pollSwitch_bind_eq_error h
  cases tracing with
  | true => exact offerLine_error h
  | false => cases h

/-- All that can go wrong with a register dump is that it was asked for and is refused. -/
private theorem traceRegisters_error (h : traceRegisters m = .error e m') :
    e = .device .writeFailed ∧ m.tracer.any (·.dumpsRegisters) = true := by
  obtain ⟨tracing, m₁, hpoll, h⟩ := pollSwitch_bind_eq_error h
  have horders : m.orders = m₁.orders := keeps_orders_pollSwitch.of_ok hpoll
  cases tracing with
  | false => cases h
  | true =>
    rw [if_pos rfl, bind_apply, get_apply] at h
    dsimp only at h
    split at h
    · next hdumps => exact ⟨offerLine_error h, (congrArg (·.2.2) horders).trans hdumps⟩
    · cases h

private theorem failsCleanly_trace (pc : Word) (line : Machine → String) :
    (trace line).FailsCleanly pc := by
  intro m e m' h
  have hsame := ((quiet_trace line).of_error h).sameState
  cases trace_error h
  exact ⟨hsame, nofun⟩

/-! ### Carrying out an instruction -/

private theorem announce_error {remark : Option String} (h : announce remark m = .error e m') :
    e = .device .writeFailed := by
  cases remark with
  | none => cases h
  | some line => exact trace_error h

private theorem failsCleanly_announce (pc : Word) (remark : Option String) :
    (announce remark).FailsCleanly pc := by
  cases remark with
  | none => exact .pure ()
  | some line => exact failsCleanly_trace pc fun _ => line

private theorem failsCleanly_writeByte (pc : Word) (b : UInt8) : (writeByte b).FailsCleanly pc := by
  intro m e m' h
  rw [writeByte_apply] at h
  split at h <;> cases h
  exact ⟨{ SameState.refl m with }, nofun⟩

/-- A flush changes nothing of the state, whether it succeeds or not. -/
theorem keeps_sameState_flush : flush.Keeps sameState := by
  intro m
  have hwritten (succeeded : Bool) : m.written =
      { m with journal := m.journal.push (.flushed succeeded) }.written := by
    simp [written, Event.written?]
  rw [after, flush_apply]
  cases m.output.flushes m.output.flushed with
  | true => exact { SameState.refl m with written := hwritten true }
  | false => exact { SameState.refl m with written := hwritten false }

private theorem failsCleanly_flush (pc : Word) : flush.FailsCleanly pc := by
  intro m e m' h
  have hsame := keeps_sameState_flush.of_error h
  rw [flush_apply] at h
  split at h <;> cases h
  exact ⟨hsame, nofun⟩

/-- A request that gives no byte takes none off the unread input. -/
private theorem requested_sameState (h : m.input.request.answer.byte? = none) :
    m.SameState m.requested := by
  have hunread := m.input.unread_request
  rw [h, Option.toList_none, List.nil_append] at hunread
  exact { SameState.refl m with unread := hunread, written := (written_requested m).symm }

private theorem failsCleanly_readByte (pc : Word) : (readByte pc).FailsCleanly pc := by
  intro m e m' h
  rw [readByte_apply] at h
  split at h
  · cases h
  · next hanswer =>
    cases h
    exact ⟨requested_sameState (by rw [hanswer]; rfl), by rintro _ ⟨⟩; rfl⟩
  · next hanswer =>
    cases h
    exact ⟨requested_sameState (by rw [hanswer]; rfl), nofun⟩
  · next hanswer =>
    cases h
    exact ⟨requested_sameState (by rw [hanswer]; rfl), by rintro _ ⟨⟩; rfl⟩

/-- An effect fails cleanly, if it is no fault of an instruction elsewhere. -/
private theorem failsCleanly_perform {pc next : Word} {effect : Effect}
    (hfault : ∀ e, effect = .fault e → ∀ p ∈ e.pc?, p = pc) :
    (perform pc next effect).FailsCleanly pc := by
  cases effect with
  | fault e => exact .throw (hfault e rfl)
  | compute core control => exact .bind_of_ok (.modify _) fun _ _ => ⟨_, _, rfl⟩
  | emit b => exact .bind_of_ok (failsCleanly_writeByte pc b) fun _ _ => ⟨_, _, rfl⟩
  | receive target =>
    -- The flush comes first and may succeed before the read fails, but it leaves the state alone.
    refine .bind (failsCleanly_flush pc) (fun m _ m' h => ?_) fun _ => ?_
    · exact keeps_sameState_flush.of_ok h
    · exact .bind_of_ok (failsCleanly_readByte pc) fun _ _ => ⟨_, _, rfl⟩

/-- A read fails for its answer, once the request was made. -/
theorem readByte_error {pc : Word} (h : readByte pc m = .error e m') :
    m' = m.requested ∧ (e = .inputExhausted pc ∧ m.input.request.answer = .ended ∨
      e = .device .readFailed ∨ e = .interrupted pc) := by
  rw [readByte_apply] at h
  split at h
  · cases h
  · next hended =>
    cases h
    exact ⟨rfl, .inl ⟨rfl, hended⟩⟩
  · cases h
    exact ⟨rfl, .inr (.inl rfl)⟩
  · cases h
    exact ⟨rfl, .inr (.inr rfl)⟩

/-- An effect fails because it is a fault, because a device fails, or because no byte is given. -/
theorem perform_error_cases {pc next : Word} {effect : Effect}
    (h : perform pc next effect m = .error e m') :
    (effect = .fault e ∧ m' = m) ∨ (∃ error, e = .device error) ∨
      ∃ target, effect = .receive target ∧ readByte pc (flush.after m) = .error e m' := by
  cases effect with
  | fault e' =>
    cases h
    exact .inl ⟨rfl, rfl⟩
  | compute core control => cases h
  | emit b =>
    obtain h | ⟨_, _, -, ⟨⟩⟩ := bind_eq_error_iff.mp h
    rw [writeByte_apply] at h
    split at h <;> cases h
    exact .inr (.inl ⟨_, rfl⟩)
  | receive target =>
    refine .inr ?_
    obtain h | ⟨_, m₁, hflush, h⟩ := bind_eq_error_iff.mp h
    · rw [flush_apply] at h
      split at h <;> cases h
      exact .inl ⟨_, rfl⟩
    · -- The flush has succeeded, so it is the read that fails.
      obtain rfl := after_of_ok hflush
      obtain h | ⟨_, _, -, ⟨⟩⟩ := bind_eq_error_iff.mp h
      exact .inr ⟨target, rfl, h⟩

/-- The faults of an instruction carry its own address. -/
private theorem pc_of_effect_eq_fault {i : Instruction} {core : Core} {pc next : Word}
    (h : i.effect core pc next = .fault e) : ∀ p ∈ e.pc?, p = pc := by
  cases i with
  | pop | binary | load | store =>
    simp only [Instruction.effect] at h
    split at h <;> cases h
    rintro _ ⟨⟩
    rfl
  | ret =>
    -- With an empty stack a return halts, which is no fault.
    simp only [Instruction.effect] at h
    split at h <;> cases h
  | _ => cases h

/-- An instruction that cannot be carried out is at fault itself. -/
theorem isFault_of_effect_eq_fault {i : Instruction} {core : Core} {pc next : Word}
    (h : i.effect core pc next = .fault e) : e.IsFault := by
  cases i with
  | pop | binary | load | store =>
    simp only [Instruction.effect] at h
    split at h <;> cases h
    trivial
  | ret =>
    simp only [Instruction.effect] at h
    split at h <;> cases h
  | _ => cases h

private theorem failsCleanly_execute (i : Instruction) (pc next : Word) :
    (execute i pc next).FailsCleanly pc := by
  intro m e m' h
  rw [execute_apply] at h
  have hperform : (perform pc next (i.effect m.core pc next)).FailsCleanly pc :=
    failsCleanly_perform fun _ => pc_of_effect_eq_fault
  refine FailsCleanly.bind (failsCleanly_announce pc _) (fun m _ m' h => ?_) (fun _ => hperform) h
  exact ((quiet_announce _).of_ok h).sameState

/-- An instruction that cannot be fetched, traced or carried out leaves the state as it was. -/
theorem carryOut_error (h : carryOut symbols m = .error e m') :
    m.SameState m' ∧ ∀ p ∈ e.pc?, p = m.pc := by
  simp only [carryOut, bind_apply, get_apply] at h
  cases hfetch : m.fetch with
  | error e' =>
    rw [hfetch] at h
    exact FailsCleanly.throw (by rintro _ ⟨⟩; rfl) h
  | ok fetched =>
    rw [hfetch] at h
    refine FailsCleanly.bind (failsCleanly_trace m.pc _) (fun m₁ _ m₁' h₁ => ?_)
      (fun _ => failsCleanly_execute fetched.1 m.pc _) h
    exact ((quiet_trace _).of_ok h₁).sameState

/-! ### Failed steps -/

/-- A step fails when its instruction cannot be carried out or the register dump is refused. -/
theorem step_eq_error_iff :
    step symbols m = .error e m' ↔
      carryOut symbols m = .error e m' ∨
        ∃ control done, carryOut symbols m = .ok control done ∧
          traceRegisters done = .error e m' := by
  rw [step, bind_eq_error_iff]
  refine or_congr_right (exists₂_congr fun control done => and_congr_right fun _ => ?_)
  rw [bind_eq_error_iff]
  -- What comes after the register dump only moves the program counter and cannot fail.
  refine or_iff_left ?_
  rintro ⟨_, m₁, -, h⟩
  rw [proceed] at h
  split at h <;> cases h

/-- A step fails when there is no instruction, when its effect cannot be performed, or when a line
of the trace is refused. -/
theorem exists_perform_of_step_error (h : step symbols m = .error e m') :
    (∃ error, m.fetch = .error error ∧ e = .badInstruction m.pc error ∧ m' = m) ∨
      (e = .device .writeFailed ∧ m.tracer ≠ none) ∨
        ∃ i length m₁, m.fetch = .ok (i, length) ∧ m.AgreeButTrace m₁ ∧
          (m.tracer = none → m₁ = m) ∧
          perform m.pc (m.pc + UInt16.ofNat length)
            (i.effect m.core m.pc (m.pc + UInt16.ofNat length)) m₁ = .error e m' := by
  rw [step_apply] at h
  cases hfetch : m.fetch with
  | error error =>
    rw [hfetch] at h
    cases h
    exact .inl ⟨error, rfl, rfl, rfl⟩
  | ok fetched =>
    obtain ⟨i, length⟩ := fetched
    rw [hfetch] at h
    refine .inr ?_
    obtain h | ⟨_, m₁, htrace, h⟩ := bind_eq_error_iff.mp h
    · refine .inl ⟨trace_error h, fun huntraced => ?_⟩
      rw [trace_of_untraced huntraced] at h
      cases h
    have hsame₁ (huntraced : m.tracer = none) : m₁ = m := by
      rw [trace_of_untraced huntraced] at htrace
      cases htrace
      rfl
    obtain h | ⟨_, m₂, hannounce, h⟩ := bind_eq_error_iff.mp h
    · refine .inl ⟨announce_error h, fun huntraced => ?_⟩
      rw [hsame₁ huntraced, announce_of_untraced huntraced] at h
      cases h
    have hsame₂ (huntraced : m.tracer = none) : m₂ = m := by
      rw [hsame₁ huntraced, announce_of_untraced huntraced] at hannounce
      cases hannounce
      rfl
    obtain h | ⟨control, done, hdone, h⟩ := bind_eq_error_iff.mp h
    · exact .inr ⟨i, length, m₂, rfl,
        ((quiet_trace _).of_ok htrace).trans ((quiet_announce _).of_ok hannounce), hsame₂, h⟩
    obtain h | ⟨_, dumped, -, h⟩ := bind_eq_error_iff.mp h
    · obtain ⟨he, hdumps⟩ := traceRegisters_error h
      refine .inl ⟨he, fun huntraced => ?_⟩
      -- The tracer whose register dump is refused was there from the start.
      have horders : m₂.orders = done.orders := (keeps_orders_perform _ _ _).of_ok hdone
      have hdumps' := (congrArg (·.2.2) horders).trans hdumps
      rw [hsame₂ huntraced, orders, huntraced] at hdumps'
      cases hdumps'
    rw [bind_apply, proceed_apply] at h
    cases h

/-- The instruction **takes effect** when it can be carried out and that changes the state. -/
def TakesEffect (symbols : SymbolTable) (m : Machine) : Prop :=
  ∃ control done, carryOut symbols m = .ok control done ∧ ¬ m.SameState done

/-- What a failed step leaves behind when the register dump was refused: the state in which the
instruction was carried out, with the program counter still there. -/
theorem dump_error {control : Control} {done : Machine}
    (hdone : carryOut symbols m = .ok control done) (hdump : traceRegisters done = .error e m') :
    e = .device .writeFailed ∧ m.tracer.any (·.dumpsRegisters) = true ∧ m'.pc = m.pc ∧
      done.SameState m' := by
  have horders : m.orders = done.orders := (keeps_orders_carryOut symbols).of_ok hdone
  have hsame := (quiet_traceRegisters.of_error hdump).sameState
  obtain ⟨he, hdumps⟩ := traceRegisters_error hdump
  refine ⟨he, (congrArg (·.2.2) horders).trans hdumps, ?_, hsame⟩
  exact ((congrArg Prod.fst horders).trans hsame.pc).symm

/-- A failed step leaves the program counter, and carries no other address. -/
private theorem pc_of_step_error (h : step symbols m = .error e m') :
    m'.pc = m.pc ∧ ∀ p ∈ e.pc?, p = m.pc := by
  obtain h | ⟨control, done, hdone, hdump⟩ := step_eq_error_iff.mp h
  · obtain ⟨hsame, hpc⟩ := carryOut_error h
    exact ⟨hsame.pc.symm, hpc⟩
  · obtain ⟨rfl, -, hpc, -⟩ := dump_error hdone hdump
    exact ⟨hpc, nofun⟩

/-- A failed step leaves the state as it was, unless the instruction took effect. -/
private theorem sameState_of_step_error_iff (h : step symbols m = .error e m') :
    m.SameState m' ↔ ¬ TakesEffect symbols m := by
  obtain h | ⟨control, done, hdone, hdump⟩ := step_eq_error_iff.mp h
  · -- The instruction was not carried out, so it took no effect either.
    refine iff_of_true (carryOut_error h).1 ?_
    rintro ⟨control, done, hdone, -⟩
    rw [h] at hdone
    cases hdone
  · -- It was carried out: the machine is left as `done`, so all depends on whether that differs.
    obtain ⟨-, -, -, hsame⟩ := dump_error hdone hdump
    refine ⟨?_, fun hnot => ?_⟩
    · rintro hsame' ⟨_, _, hdone', hchanged⟩
      rw [hdone] at hdone'
      cases hdone'
      exact hchanged (hsame'.trans hsame.symm)
    · have hdone' : m.SameState done := by
        by_contra hchanged
        exact hnot ⟨control, done, hdone, hchanged⟩
      exact hdone'.trans hsame

/-- A step that fails although its instruction took effect was refused the register dump. -/
private theorem exists_dump_of_step_error (h : step symbols m = .error e m')
    (heffect : TakesEffect symbols m) :
    e = .device .writeFailed ∧ m.tracer.any (·.dumpsRegisters) = true ∧
      ∃ control done, carryOut symbols m = .ok control done ∧
        traceRegisters done = .error e m' ∧ done.SameState m' := by
  obtain h | ⟨control, done, hdone, hdump⟩ := step_eq_error_iff.mp h
  · obtain ⟨control, done, hdone, -⟩ := heffect
    rw [h] at hdone
    cases hdone
  · obtain ⟨he, hdumps, -, hsame⟩ := dump_error hdone hdump
    exact ⟨he, hdumps, control, done, hdone, hdump, hsame⟩

/-- A machine that does not trace its registers is left by a failed step as it was. -/
private theorem sameState_of_step_error (hdumps : m.tracer.any (·.dumpsRegisters) = false)
    (h : step symbols m = .error e m') : m.SameState m' := by
  rw [sameState_of_step_error_iff h]
  intro heffect
  obtain ⟨-, hdumps', -⟩ := exists_dump_of_step_error h heffect
  rw [hdumps] at hdumps'
  cases hdumps'

/-- So the end of a run leaves a machine without a tracer as it was before the step that failed. -/
theorem sameState_flush_of_step_error (huntraced : m.tracer = none)
    (h : step symbols m = .error e m') : m.SameState (flush.after m') := by
  have hdumps : m.tracer.any (·.dumpsRegisters) = false := by
    rw [huntraced]
    rfl
  exact (sameState_of_step_error hdumps h).trans (keeps_sameState_flush m')

/-! ### The main result -/

/-- **What a failed step leaves behind.** The program counter stays, and the error carries no other
address. The rest of the state is as it was before, except if the instruction took effect; that
happens only when the register dump was asked for and refused, and then the state is the one in
which the instruction was carried out.

A run that fails without having halted stops in such a step, at the instruction that failed. Unless
that took effect, the machine is left in the state from which the step started. -/
theorem failed_step_state (symbols : SymbolTable) (m : Machine) :
    (∀ e m', step symbols m = .error e m' →
      m'.pc = m.pc ∧ (∀ p ∈ e.pc?, p = m.pc) ∧ (m.SameState m' ↔ ¬ TakesEffect symbols m) ∧
        (TakesEffect symbols m →
          e = .device .writeFailed ∧ m.tracer.any (·.dumpsRegisters) = true ∧
            ∃ control done, carryOut symbols m = .ok control done ∧
              traceRegisters done = .error e m' ∧ done.SameState m')) ∧
    ∀ fuel e m', run symbols fuel m = (m', some (.error e)) →
      (∃ n s failed, loop symbols n m = (s, none) ∧ step symbols s = .error e failed ∧
        failed.SameState m' ∧ m'.pc = s.pc ∧ (∀ p ∈ e.pc?, p = s.pc) ∧
          (s.SameState m' ↔ ¬ TakesEffect symbols s)) ∨
      ∃ halted halt, loop symbols fuel m = (halted, some (.ok halt)) ∧
        e = .device .flushFailed ∧ halted.SameState m' := by
  refine ⟨fun e m' h => ?_, fun fuel e m' h => ?_⟩
  · obtain ⟨hpc, hcarried⟩ := pc_of_step_error h
    exact ⟨hpc, hcarried, sameState_of_step_error_iff h, exists_dump_of_step_error h⟩
  · obtain ⟨n, s, failed, hbefore, hstep, rfl⟩ | ⟨halted, halt, hloop, he, rfl⟩ := run_eq_error h
    · have hflush : failed.SameState (flush.after failed) := keeps_sameState_flush failed
      obtain ⟨hpc, hcarried⟩ := pc_of_step_error hstep
      refine .inl ⟨n, s, failed, hbefore, hstep, hflush, hflush.pc.symm.trans hpc, hcarried, ?_⟩
      -- The flush at the end does not tell the failed step from the machine that is left.
      rw [← sameState_of_step_error_iff hstep]
      exact ⟨fun hsame => hsame.trans hflush.symm, fun hsame => hsame.trans hflush⟩
    · exact .inr ⟨halted, halt, hloop, he, keeps_sameState_flush halted⟩

/-! ### A refused dump -/

/-- A program that reads a byte. -/
def readingImage : Image := ⟨#[20, 32768, 0, 0], by decide⟩

/-- A machine with a terminal on which tracing is switched on just before the key that a program
reads, and with a tracer that shows registers but takes no line. -/
def refusedDump (memory : Memory) : Machine where
  memory
  input := .terminal { keys := [.toggleTrace, .character 'a'] }
  tracer := some { takes := .never, dumpsRegisters := true }

private theorem fetch_refusedDump :
    (refusedDump (.ofImage readingImage)).fetch = .ok (.input 0, 2) := by
  rw [fetch, Instruction.decode]
  dsimp only [refusedDump]
  rw [Memory.extract_words_ofImage]
  · rfl
  · decide

/-- When the dump is refused the key was read, so its byte is no longer unread. -/
private theorem exists_step_refusedDump {memory : Memory}
    (hfetch : (refusedDump memory).fetch = .ok (.input 0, 2)) :
    ∃ m', step .empty (refusedDump memory) = .error (.device .writeFailed) m' ∧
      ¬ (refusedDump memory).SameState m' := by
  have hstep : ∃ m', step .empty (refusedDump memory) = .error (.device .writeFailed) m' ∧
      m'.input.unread = [] := by
    simp only [step, carryOut, bind_apply, get_apply, hfetch]
    exact ⟨_, rfl, rfl⟩
  obtain ⟨m', hstep, hunread⟩ := hstep
  refine ⟨m', hstep, fun hsame => ?_⟩
  -- The byte of the key is unread before the step, and gone after it.
  have hbyte : [97] = ([] : List UInt8) := hsame.unread.trans hunread
  cases hbyte

/-- A failed step need not leave the machine as it was. -/
theorem refusedDump_not_sameState :
    ∃ e m', step .empty (refusedDump (.ofImage readingImage)) = .error e m' ∧
      ¬ (refusedDump (.ofImage readingImage)).SameState m' :=
  ⟨_, exists_step_refusedDump fetch_refusedDump⟩

theorem failed_step_state_refusedDump :
    ∃ m', step .empty (refusedDump (.ofImage readingImage)) = .error (.device .writeFailed) m' ∧
      m'.pc = 0 ∧ TakesEffect .empty (refusedDump (.ofImage readingImage)) ∧
      (∃ control done, carryOut .empty (refusedDump (.ofImage readingImage)) = .ok control done ∧
        done.SameState m') ∧
      ∃ n s, loop .empty n (refusedDump (.ofImage readingImage)) = (s, none) ∧
        (flush.after m').pc = s.pc := by
  obtain ⟨m', hstep, hchanged⟩ := exists_step_refusedDump fetch_refusedDump
  obtain ⟨hfailed, hrun⟩ := failed_step_state .empty (refusedDump (.ofImage readingImage))
  obtain ⟨hpc, -, hiff, hdump⟩ := hfailed _ _ hstep
  have heffect : TakesEffect .empty (refusedDump (.ofImage readingImage)) := by
    by_contra hnot
    exact hchanged (hiff.mpr hnot)
  obtain ⟨-, -, control, done, hdone, -, hsame⟩ := hdump heffect
  refine ⟨m', hstep, hpc, heffect, ⟨control, done, hdone, hsame⟩, ?_⟩
  obtain ⟨n, s, -, hbefore, -, -, hpc', -⟩ | ⟨halted, halt, -, he, -⟩ :=
    hrun 1 _ _ (run_of_step_error hstep)
  · exact ⟨n, s, hbefore, hpc'⟩
  · cases he

end Machine

end WordMachine
