import WordMachine.Proofs.Machine.Failure
import WordMachine.Proofs.Machine.Resumption

/-!
# Programs are causal in their input

What a program does depends only on the input that it has read (`run_causal`). More bytes at the end
of its input change nothing about a run that ends before they are asked for, and a run that ends for
want of input can be taken up again when there is more.

Up to a read that finds no byte, the runs on the two inputs are in lockstep on `Fed`. Such a read
leaves nothing behind but a flush and a request in vain (`step_starved`), so that the machine is
like the one with more input, right before it reads on.
-/

namespace WordMachine

open WordMachine.Action

/-! ### Devices that never fail -/

/-- The output takes every byte, and every flush succeeds. -/
structure Output.NeverFails (output : Output) : Prop where
  takes : ∀ n, output.takes n = true
  flushes : ∀ n, output.flushes n = true

namespace Input

variable {input : Input}

/-- The input is a stream that always answers. -/
def Flows (input : Input) : Prop := ∃ s, input = .stream s ∧ ∀ n, s.honours n = true

/-- The input with more bytes at the end. A terminal has no end. -/
def extended : Input → List UInt8 → Input
  | .stream s, bytes => .stream { s with unread := s.unread ++ bytes }
  | .terminal t, _ => .terminal t

private theorem Flows.unread_extended (h : input.Flows) (bytes : List UInt8) :
    (input.extended bytes).unread = input.unread ++ bytes := by
  obtain ⟨s, rfl, -⟩ := h
  rfl

private theorem Flows.extended (h : input.Flows) (bytes : List UInt8) :
    (input.extended bytes).Flows := by
  obtain ⟨s, rfl, hhonours⟩ := h
  exact ⟨_, rfl, hhonours⟩

/-- A stream has ended, or it gives a byte and does not look at those behind it. -/
private theorem Flows.request_cases (h : input.Flows) (bytes : List UInt8) :
    input.request.answer = .ended ∧ input.unread = [] ∨
      (∃ b, input.request.answer = .byte b) ∧
        (input.extended bytes).request =
          { input.request with rest := input.request.rest.extended bytes } := by
  obtain ⟨s, rfl, hhonours⟩ := h
  simp only [request, Input.extended, unread, hhonours, if_true]
  cases s.unread with
  | nil => exact .inl ⟨rfl, rfl⟩
  | cons b rest => exact .inr ⟨⟨b, rfl⟩, rfl⟩

/-- An input that flows ends when nothing is left of it. -/
private theorem Flows.unread_of_ended (h : input.Flows) (hended : input.request.answer = .ended) :
    input.unread = [] := by
  obtain ⟨-, hunread⟩ | ⟨⟨b, hb⟩, -⟩ := h.request_cases []
  · exact hunread
  · rw [hb] at hended
    cases hended

private theorem Flows.request (h : input.Flows) : input.request.rest.Flows := by
  obtain ⟨s, rfl, hhonours⟩ := h
  simp only [Input.request, hhonours, if_true]
  split
  · exact ⟨_, rfl, hhonours⟩
  · exact ⟨_, rfl, hhonours⟩

end Input

namespace Machine

variable {symbols : SymbolTable} {bytes : List UInt8} {m m' : Machine}

/-- A machine without a tracer whose devices never fail. -/
structure Served (m : Machine) : Prop where
  untraced : m.tracer = none
  output : m.output.NeverFails
  input : m.input.Flows

private theorem Served.requested (h : Served m) : Served m.requested :=
  { h with input := h.input.request }

/-- Machines that are served and in the same state go on alike, if they are to stop at the same
instruction. -/
private theorem Served.alike (h : Served m) (h' : Served m') (hsame : m.SameState m')
    (hhaltAt : m.haltAt = m'.haltAt) : Alike m m' where
  core := by rw [core, core, hsame.memory, hsame.registers, hsame.stack]
  pc := hsame.pc
  haltAt := hhaltAt
  input := by
    have hunread := hsame.unread
    obtain ⟨s, hs, hhonours⟩ := h.input
    obtain ⟨s', hs', hhonours'⟩ := h'.input
    rw [hs, hs'] at hunread ⊢
    exact .stream hunread fun n => by rw [hhonours, hhonours']
  output :=
    ⟨fun n => by rw [h.output.takes, h'.output.takes],
      fun n => by rw [h.output.flushes, h'.output.flushes]⟩
  written := hsame.written
  untraced := h.untraced
  untraced' := h'.untraced

/-! ### More input -/

/-- The machine with the given bytes as its input. -/
def reading (m : Machine) (bytes : List UInt8) : Machine := { m with input := .ofBytes bytes }

/-- The machine with more bytes at the end of its input. -/
def extended (m : Machine) (bytes : List UInt8) : Machine :=
  { m with input := m.input.extended bytes }

/-- The first machine is served, and the second one has more bytes at the end of its input. -/
structure Fed (bytes : List UInt8) (m m' : Machine) : Prop where
  eq : m' = m.extended bytes
  served : Served m

/-- The error says that input has ended. -/
def Starved (e : MachineError) : Prop := ∃ pc, e = .inputExhausted pc

private theorem Fed.untraced' (h : Fed bytes m m') : m'.tracer = none := by
  rw [h.eq]
  exact h.served.untraced

/-- Machines with more input and with less are in lockstep, but for a read that finds no byte. -/
private theorem respected_fed (bytes : List UInt8) : Respected Starved (Fed bytes) where
  core_eq _ _ h := by rw [h.eq]; rfl
  pc_eq _ _ h := by rw [h.eq]; rfl
  flushes _ _ h := by rw [h.eq]; rfl
  withCore _ _ _ h := ⟨by rw [h.eq]; rfl, { h.served with }⟩
  withPc _ _ _ h := ⟨by rw [h.eq]; rfl, { h.served with }⟩
  flushed _ _ h := ⟨by rw [h.eq]; rfl, { h.served with output := { h.served.output with } }⟩
  note _ _ _ _ h := ⟨by rw [h.eq]; rfl, { h.served with }⟩
  trace := lockstep_trace_of_untraced fun _ _ h => ⟨h.served.untraced, h.untraced'⟩
  traceRegisters :=
    lockstep_traceRegisters_of_untraced fun _ _ h => ⟨h.served.untraced, h.untraced'⟩
  writeByte := lockstep_writeByte_of_takes (fun _ _ h => by rw [h.eq]; rfl)
    (fun _ _ h => ⟨by rw [h.eq]; rfl, { h.served with output := { h.served.output with } }⟩)
    fun _ _ _ h => ⟨by rw [h.eq]; rfl, { h.served with }⟩
  readByte pc := by
    rintro m m' ⟨rfl, hserved⟩
    rw [readByte_apply, readByte_apply]
    obtain ⟨hended, -⟩ | ⟨⟨b, hb⟩, hrequest⟩ := hserved.input.request_cases bytes
    · -- The first machine finds no byte, whatever the second one finds.
      rw [hended]
      exact .excused ⟨pc, rfl⟩ _ _
    · have hinput : (m.extended bytes).input = m.input.extended bytes := rfl
      have hrequested : (m.extended bytes).requested = m.requested.extended bytes := by
        rw [Machine.requested, hinput, hrequest]
        rfl
      rw [hrequested, hinput, hrequest, hb]
      exact .ok b ⟨rfl, { hserved.requested with }⟩

/-! ### Wanting input -/

/-- A step that fails for want of input has flushed the output and asked in vain for a byte, and
nothing else. -/
theorem step_starved {pc : Word} (huntraced : m.tracer = none)
    (h : step symbols m = .error (.inputExhausted pc) m') :
    m.input.request.answer = .ended ∧ m' = (flush.after m).requested := by
  obtain ⟨_, -, ⟨⟩, -⟩ | ⟨⟨⟩, -⟩ | ⟨i, length, m₁, -, -, hsame, hperform⟩ :=
    exists_perform_of_step_error h
  rw [hsame huntraced] at hperform
  obtain ⟨heffect, -⟩ | ⟨_, ⟨⟩⟩ | ⟨target, -, hread⟩ := perform_error_cases hperform
  · exact (isFault_of_effect_eq_fault heffect).elim
  · have hinput : (flush.after m).input = m.input := by rw [after_flush]
    obtain ⟨hleft, ⟨-, hended⟩ | ⟨⟨⟩⟩ | ⟨⟨⟩⟩⟩ := readByte_error hread
    exact ⟨hinput ▸ hended, hleft⟩

private theorem Served.flush (h : Served m) : Served (flush.after m) := by
  rw [after_flush]
  exact { h with output := { h.output with } }

/-- A run that ends for want of input leaves the machine in the state before the step that wanted
it, and nothing is unread. -/
private theorem sameState_of_starved {s : Machine} {pc : Word} (hserved : Served s)
    (h : step symbols s = .error (.inputExhausted pc) m) :
    s.SameState (Machine.flush.after m) ∧ s.input.unread = [] := by
  obtain ⟨hended, -⟩ := step_starved hserved.untraced h
  exact ⟨sameState_flush_of_step_error hserved.untraced h, hserved.input.unread_of_ended hended⟩

/-- A machine that was left for want of input goes on with more like the machine that had more when
it asked. -/
private theorem alike_of_starved {s : Machine} {pc : Word} (hserved : Served s)
    (h : step symbols s = .error (.inputExhausted pc) m) (bytes : List UInt8) :
    Alike ((Machine.flush.after m).reading bytes) (s.extended bytes) := by
  obtain ⟨hsame, hunread⟩ := sameState_of_starved hserved h
  obtain ⟨-, rfl⟩ := step_starved hserved.untraced h
  have hleft : Served ((Machine.flush.after (Machine.flush.after s).requested).reading bytes) :=
    { hserved.flush.requested.flush with input := ⟨_, rfl, fun _ => rfl⟩ }
  have hright : Served (s.extended bytes) :=
    { hserved with input := hserved.input.extended bytes }
  have hbytes : bytes = (s.extended bytes).input.unread := by
    rw [extended, hserved.input.unread_extended, hunread, List.nil_append]
  refine hleft.alike hright { hsame.symm with unread := hbytes } ?_
  rw [after_flush, after_flush]
  rfl

/-! ### The main result -/

/-- **Programs are causal in their input.** Take a machine without a tracer whose output never
fails, and any bytes `more` after any bytes `bytes` of input that ends.

If a run on `bytes` ends otherwise than for want of input, then with `more` it ends in the same
number of steps with the same result, and in the same machine but for `more` at the end of the bytes
that are unread. If it ends for want of input, then it has read all of `bytes`, and the machine that
it leaves ends, when it is run on `more`, as a run on both does: with the same result, and in the
same state. -/
theorem run_causal (symbols : SymbolTable) (m : Machine) (huntraced : m.tracer = none)
    (houtput : m.output.NeverFails) (bytes more : List UInt8) (fuel : Nat) :
    (∀ f result, run symbols fuel (m.reading bytes) = (f, some result) →
      (∀ pc, result ≠ .error (.inputExhausted pc)) →
      run symbols fuel (m.reading (bytes ++ more)) = (f.extended more, some result) ∧
        (f.extended more).input.unread = f.input.unread ++ more) ∧
    ∀ f pc, run symbols fuel (m.reading bytes) = (f, some (.error (.inputExhausted pc))) →
      f.input.unread = [] ∧
        EndAlike symbols (f.reading more) (m.reading (bytes ++ more)) := by
  have hstart : Fed more (m.reading bytes) (m.reading (bytes ++ more)) :=
    ⟨rfl, huntraced, houtput, ⟨_, rfl, fun _ => rfl⟩⟩
  have hlockstep := lockstep_loop_unless ((respected_fed more).lockstep_step symbols)
    (fun _ _ h => (respected_fed more).pc_eq h) (fun _ _ h => by rw [h.eq]; rfl) (h := hstart)
  refine ⟨fun f result hrun hnot => ?_, fun f pc hrun => ?_⟩
  · obtain ⟨_, s, hloop, pc, rfl⟩ | ⟨hresult, hlast⟩ := hlockstep fuel
    · -- A loop that wants input makes a run that does.
      rw [run_of_loop_error hloop] at hrun
      cases hrun
      exact absurd rfl (hnot pc)
    · obtain ⟨hresult, hlast⟩ :=
        lockstep_run_of_loop (respected_fed more).lockstep_flush hresult hlast
      rw [hrun] at hresult hlast
      exact ⟨Prod.ext hlast.eq hresult.symm, hlast.served.input.unread_extended more⟩
  · obtain ⟨n, s, failed, hloop, hstep, rfl⟩ | ⟨_, _, -, ⟨⟩, -⟩ := run_eq_error hrun
    obtain ⟨_, _, hfail, -⟩ | ⟨hresult, hlast⟩ := hlockstep n
    · rw [hloop] at hfail
      cases hfail
    · -- The run with more input has come as far as the one that now wants input.
      rw [hloop] at hresult hlast
      have hreached : loop symbols n (m.reading (bytes ++ more)) = (s.extended more, none) :=
        Prod.ext hlast.eq hresult.symm
      obtain ⟨hsame, hunread⟩ := sameState_of_starved hlast.served hstep
      refine ⟨hsame.unread.symm.trans hunread, .of_run n fun k => ?_⟩
      obtain ⟨hresult, hlast⟩ := (alike_of_starved hlast.served hstep more).run symbols k
      rw [run_add_of_none hreached]
      exact ⟨hresult, hlast.sameState⟩

/-- A machine that reads one byte and then stops. -/
def reader : Machine := { ofImage readingImage with haltAt := some 0 }

private theorem fetch_reader (bytes : List UInt8) :
    (reader.reading bytes).fetch = .ok (.input 0, 2) := by
  have hmemory : (reader.reading bytes).memory = .ofImage readingImage := rfl
  have hpc : (reader.reading bytes).pc = 0 := rfl
  rw [fetch_of_image hmemory (Nat.le_refl 4), hpc]
  rfl

private theorem exists_run_reader_cons (b : UInt8) (rest : List UInt8) :
    ∃ f, run .empty 1 (reader.reading (b :: rest)) = (f, some (.ok ⟨0, .breakpoint⟩)) := by
  have hstep : ∃ m', step .empty (reader.reading (b :: rest)) = .ok ⟨none, 2⟩ m' ∧
      m'.haltAt = some 0 ∧ m'.output.flushes m'.output.flushed = true := by
    rw [step_apply, fetch_reader]
    exact ⟨_, rfl, rfl, rfl⟩
  obtain ⟨m', hstep, hhaltAt, hflushes⟩ := hstep
  have hpc : (reader.reading (b :: rest)).pc = 0 := rfl
  have hhalt : m'.haltReason? (reader.reading (b :: rest)).pc ⟨none, 2⟩ = some .breakpoint := by
    rw [haltReason?, hpc, if_pos hhaltAt]
  have hrun := run_of_loop_ok (loop_succ_of_halt hstep hhalt 0) hflushes
  rw [hpc] at hrun
  exact ⟨_, hrun⟩

private theorem exists_run_reader_nil :
    ∃ f, run .empty 1 (reader.reading []) = (f, some (.error (.inputExhausted 0))) := by
  have hstep : ∃ m', step .empty (reader.reading []) = .error (.inputExhausted 0) m' := by
    rw [step_apply, fetch_reader]
    exact ⟨_, rfl⟩
  obtain ⟨m', hstep⟩ := hstep
  exact ⟨_, run_of_step_error hstep⟩

theorem run_causal_reader :
    reader.tracer = none ∧ reader.output.NeverFails ∧
      (∃ f, run .empty 1 (reader.reading [97]) = (f, some (.ok ⟨0, .breakpoint⟩)) ∧
        run .empty 1 (reader.reading [97, 98]) =
          (f.extended [98], some (.ok ⟨0, .breakpoint⟩)) ∧
        (f.extended [98]).input.unread = f.input.unread ++ [98]) ∧
      ∃ f, run .empty 1 (reader.reading []) = (f, some (.error (.inputExhausted 0))) ∧
        f.input.unread = [] ∧ EndAlike .empty (f.reading [98]) (reader.reading [98]) := by
  have huntraced : reader.tracer = none := rfl
  have houtput : reader.output.NeverFails := ⟨fun _ => rfl, fun _ => rfl⟩
  refine ⟨huntraced, houtput, ?_, ?_⟩
  · obtain ⟨f, hrun⟩ := exists_run_reader_cons 97 []
    obtain ⟨hlonger, -⟩ := run_causal .empty reader huntraced houtput [97] [98] 1
    exact ⟨f, hrun, hlonger f _ hrun nofun⟩
  · obtain ⟨f, hrun⟩ := exists_run_reader_nil
    obtain ⟨-, hlonger⟩ := run_causal .empty reader huntraced houtput [] [98] 1
    exact ⟨f, hrun, hlonger f 0 hrun⟩

end Machine

end WordMachine
