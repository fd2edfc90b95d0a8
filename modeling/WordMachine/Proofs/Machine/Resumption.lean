import WordMachine.Proofs.Machine.Simulation

/-!
# Machines that go on alike

A machine that was stopped and is run again has a past: its output was flushed once more than that
of a machine that was never stopped, and its input may have been asked in vain. Neither shows from
then on. Two machines without a tracer are **alike** when they are in the same state and their
devices honour the same requests from now on, however often they were asked before. Machines that
are alike run in lockstep (`Alike.run`).
-/

namespace WordMachine

open WordMachine.Action

/-! ### Devices -/

/-- From now on both outputs honour the same requests. -/
structure Output.Alike (o o' : Output) : Prop where
  takes : ∀ n, o.takes (o.offered + n) = o'.takes (o'.offered + n)
  flushes : ∀ n, o.flushes (o.flushed + n) = o'.flushes (o'.flushed + n)

namespace Output.Alike

variable {o o' : Output}

theorem refl (o : Output) : Alike o o := ⟨fun _ => rfl, fun _ => rfl⟩

private theorem offer (h : Alike o o') : Alike o.offer.2 o'.offer.2 where
  takes n := by simpa [Output.offer, Nat.add_assoc] using h.takes (1 + n)
  flushes := h.flushes

private theorem flush (h : Alike o o') : Alike o.flush.2 o'.flush.2 where
  takes := h.takes
  flushes n := by simpa [Output.flush, Nat.add_assoc] using h.flushes (1 + n)

/-- An output whose flushes all succeed is like itself with more flushes in its past. -/
private theorem flush_left (h : Alike o o') (hflushes : ∀ n, o.flushes n = true) :
    Alike o.flush.2 o' where
  takes := h.takes
  flushes n := by
    rw [← h.flushes n, hflushes]
    exact hflushes _

end Output.Alike

/-- From now on both inputs give the same answers: streams have the same bytes to be read and honour
the same requests, and of a terminal there is only one. -/
inductive Input.Alike : Input → Input → Prop
  | stream {s s' : InputStream} (unread : s.unread = s'.unread)
      (honours : ∀ n, s.honours (s.requested + n) = s'.honours (s'.requested + n)) :
      Alike (.stream s) (.stream s')
  | terminal (t : Terminal) : Alike (.terminal t) (.terminal t)

namespace Input.Alike

variable {input input' : Input}

theorem refl : (input : Input) → Alike input input
  | .stream _ => .stream rfl fun _ => rfl
  | .terminal t => .terminal t

private theorem unread_eq (h : Alike input input') : input.unread = input'.unread := by
  cases h with
  | stream unread => exact unread
  | terminal => rfl

/-- Requests to inputs that are alike have the same answer, and leave them alike. -/
private theorem request (h : Alike input input') :
    input.request.answer = input'.request.answer ∧
      input.request.pressed = input'.request.pressed ∧
        Alike input.request.rest input'.request.rest := by
  cases h with
  | terminal t => exact ⟨rfl, rfl, .refl _⟩
  | @stream s s' unread honours =>
    have hnow : s.honours s.requested = s'.honours s'.requested := honours 0
    have hlater (n : Nat) :
        s.honours (s.requested + 1 + n) = s'.honours (s'.requested + 1 + n) := by
      simpa [Nat.add_assoc] using honours (1 + n)
    simp only [Input.request, hnow, unread]
    split
    · split
      · exact ⟨rfl, rfl, .stream rfl hlater⟩
      · exact ⟨rfl, rfl, .stream rfl hlater⟩
    · exact ⟨rfl, rfl, .stream rfl hlater⟩

end Input.Alike

/-! ### Machines -/

namespace Machine

/-- Machines without a tracer that are in the same state and whose devices answer alike from now
on. -/
structure Alike (m m' : Machine) : Prop where
  core : m.core = m'.core
  pc : m.pc = m'.pc
  haltAt : m.haltAt = m'.haltAt
  input : m.input.Alike m'.input
  output : m.output.Alike m'.output
  written : m.written = m'.written
  untraced : m.tracer = none
  untraced' : m'.tracer = none

variable {symbols : SymbolTable} {m m' : Machine}

namespace Alike

theorem refl (h : m.tracer = none) : Alike m m :=
  ⟨rfl, rfl, rfl, .refl _, .refl _, rfl, h, h⟩

theorem sameState (h : Alike m m') : m.SameState m' where
  memory := congrArg Core.memory h.core
  registers := congrArg Core.registers h.core
  stack := congrArg Core.stack h.core
  pc := h.pc
  unread := h.input.unread_eq
  written := h.written

private theorem note (h : Alike m m') (event : Event) :
    Alike { m with journal := m.journal.push event }
      { m' with journal := m'.journal.push event } :=
  { h with written := by simpa [Machine.written] using h.written }

private theorem requested (h : Alike m m') : Alike m.requested m'.requested where
  core := h.core
  pc := h.pc
  haltAt := h.haltAt
  input := h.input.request.2.2
  output := h.output
  written := by rw [written_requested, written_requested, h.written]
  untraced := h.untraced
  untraced' := h.untraced'

/-- Only the devices, the state and the orders of a machine count for what it is like. -/
theorem congr_right {m'' : Machine} (h : Alike m m') (hagree : AgreeButTrace m' m'')
    (huntraced : m''.tracer = none) : Alike m m'' where
  core := h.core.trans hagree.core_eq
  pc := h.pc.trans hagree.pc
  haltAt := h.haltAt.trans hagree.haltAt
  input := hagree.input ▸ h.input
  output := hagree.output ▸ h.output
  written := h.written.trans hagree.written_eq
  untraced := h.untraced
  untraced' := huntraced

end Alike

/-- If flushes succeed, a machine goes on after a flush like before it. -/
theorem alike_flush (huntraced : m.tracer = none) (hflushes : ∀ n, m.output.flushes n = true) :
    Alike (flush.after m) m := by
  have hwritten : (flush.after m).written = m.written := by
    simp [after_flush, written, Event.written?]
  have houtput : (flush.after m).output.Alike m.output := by
    rw [after_flush]
    exact (Output.Alike.refl _).flush_left hflushes
  rw [after_flush] at hwritten houtput ⊢
  exact { Alike.refl huntraced with output := houtput, written := hwritten }

private theorem respected_alike : Respected (fun _ => False) Alike where
  core_eq _ _ h := h.core
  pc_eq _ _ h := h.pc
  flushes _ _ h := h.output.flushes 0
  withCore _ _ _ h := { h with core := rfl }
  withPc _ _ _ h := { h with pc := rfl }
  flushed _ _ h := { h with output := h.output.flush }
  note _ _ _ _ h := h.note _
  trace := lockstep_trace_of_untraced fun _ _ h => ⟨h.untraced, h.untraced'⟩
  traceRegisters := lockstep_traceRegisters_of_untraced fun _ _ h => ⟨h.untraced, h.untraced'⟩
  writeByte := lockstep_writeByte_of_takes (fun _ _ h => h.output.takes 0)
    (fun _ _ h => { h with output := h.output.offer }) fun _ _ _ h => h.note _
  readByte := lockstep_readByte_of_answer (fun _ _ h => h.input.request.1)
    (fun _ _ h => h.requested) fun _ _ _ _ h => h.note _

namespace Alike

/-- Machines that are alike run in lockstep, and stay alike. -/
theorem run (h : Alike m m') (symbols : SymbolTable) (fuel : Nat) :
    (run symbols fuel m).2 = (run symbols fuel m').2 ∧
      Alike (Machine.run symbols fuel m).1 (Machine.run symbols fuel m').1 :=
  lockstep_run (respected_alike.lockstep_step symbols) respected_alike.lockstep_flush
    (fun _ _ h => h.pc)
    (fun _ _ h => h.haltAt) fuel h

end Alike

end Machine

end WordMachine
