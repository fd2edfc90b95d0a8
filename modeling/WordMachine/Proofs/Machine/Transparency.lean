import WordMachine.Proofs.Machine.Simulation

/-!
# Tracing is transparent

A machine with a tracer that takes every line runs exactly as it would without a tracer
(`run_eq_run_untraced`): whatever is traced, however the switch is flipped meanwhile, and whatever
the input and the output do. The two runs are in lockstep, on the relation of machines that agree
but for tracing and whose tracers take every line.

Tracing itself is quiet and never fails on such machines, so it is in lockstep with any other
tracing, or with none. As the other devices do not look at the tracer, the relation is respected
(`respected_tracedAlike`).
-/

namespace WordMachine

open WordMachine.Action

namespace Machine

variable {m m' : Machine}

/-! ### Tracers that take every line -/

/-- The tracer, if there is one, takes every line from now on. -/
def TakesLines (m : Machine) : Prop :=
  ∀ tracer ∈ m.tracer, ∀ n, tracer.offered ≤ n → tracer.takes n = true

/-- The machines agree but for tracing, and the tracers of both take every line. -/
structure TracedAlike (m m' : Machine) : Prop where
  agree : AgreeButTrace m m'
  left : m.TakesLines
  right : m'.TakesLines

/-- An action that never fails where every line is taken, and leaves it at that. -/
def GoesThrough (x : Action Unit) : Prop :=
  ∀ m : Machine, m.TakesLines → ∃ m₁, x m = .ok () m₁ ∧ m₁.TakesLines

private theorem goesThrough_offerLine (line : String) : GoesThrough (offerLine line) := by
  intro m h
  cases ht : m.tracer with
  | none => exact ⟨m, by rw [offerLine_apply, ht], h⟩
  | some tracer =>
    have htakes : tracer.takes tracer.offered = true := h tracer ht _ (Nat.le_refl _)
    refine ⟨_, by rw [offerLine_apply, ht]; exact if_pos htakes, ?_⟩
    rintro _ ⟨⟩ n hn
    exact h tracer ht n (Nat.le_of_succ_le hn)

/-- Polling the switch always succeeds, and does nothing to what the tracer takes. -/
private theorem exists_pollSwitch (h : m.TakesLines) :
    ∃ tracing m₁, pollSwitch m = .ok tracing m₁ ∧ m₁.TakesLines := by
  cases ht : m.tracer with
  | none => exact ⟨false, m, by rw [pollSwitch_apply, ht], h⟩
  | some tracer =>
    refine ⟨_, _, by rw [pollSwitch_apply, ht], ?_⟩
    rintro _ ⟨⟩ n hn
    exact h tracer ht n hn

/-- What depends on the switch goes through if it goes through with tracing on and with tracing
off. -/
private theorem GoesThrough.pollSwitch_bind {f : Bool → Action Unit} (hf : ∀ b, GoesThrough (f b)) :
    GoesThrough (pollSwitch >>= f) := by
  intro m h
  obtain ⟨tracing, m₁, hpoll, h₁⟩ := exists_pollSwitch h
  obtain ⟨m₂, hm₂, h₂⟩ := hf tracing m₁ h₁
  exact ⟨m₂, by rw [bind_apply, hpoll]; exact hm₂, h₂⟩

theorem goesThrough_trace (line : Machine → String) : GoesThrough (trace line) := by
  refine .pollSwitch_bind fun tracing => ?_
  cases tracing with
  | true => exact fun m h => goesThrough_offerLine (line m) m h
  | false => exact fun m h => ⟨m, rfl, h⟩

theorem goesThrough_traceRegisters : GoesThrough traceRegisters := by
  refine .pollSwitch_bind fun tracing m h => ?_
  cases tracing with
  | false => exact ⟨m, rfl, h⟩
  | true =>
    rw [if_pos rfl, bind_apply, get_apply]
    dsimp only
    split
    · exact goesThrough_offerLine m.registers.text m h
    · exact ⟨m, rfl, h⟩

/-! ### Everything in lockstep -/

private theorem TracedAlike.of_quiet {m₁ m₁' : Machine} {x y : Action Unit} (hx : x.Quiet)
    (hy : y.Quiet)
    (h : TracedAlike m m') (hxm : x m = .ok () m₁) (hym : y m' = .ok () m₁')
    (hleft : m₁.TakesLines) (hright : m₁'.TakesLines) : TracedAlike m₁ m₁' :=
  ⟨(hx.of_ok hxm).symm.trans (h.agree.trans (hy.of_ok hym)), hleft, hright⟩

/-- Any two quiet actions that go through are in lockstep. -/
private theorem lockstep_of_quiet {x y : Action Unit} (hx : x.Quiet) (hy : y.Quiet)
    (hgx : GoesThrough x)
    (hgy : GoesThrough y) : Lockstep TracedAlike x y := by
  intro m m' h
  obtain ⟨m₁, hm₁, hleft⟩ := hgx m h.left
  obtain ⟨m₁', hm₁', hright⟩ := hgy m' h.right
  rw [hm₁, hm₁']
  exact .ok () (h.of_quiet hx hy hm₁ hm₁' hleft hright)

private theorem lockstep_trace (line line' : Machine → String) :
    Lockstep TracedAlike (trace line) (trace line') :=
  lockstep_of_quiet (quiet_trace line) (quiet_trace line') (goesThrough_trace line)
    (goesThrough_trace line')

private theorem lockstep_traceRegisters : Lockstep TracedAlike traceRegisters traceRegisters :=
  lockstep_of_quiet quiet_traceRegisters quiet_traceRegisters goesThrough_traceRegisters
    goesThrough_traceRegisters

private theorem TracedAlike.requested (h : TracedAlike m m') :
    TracedAlike m.requested m'.requested := by
  have hdealings := h.agree.dealings
  refine ⟨{ h.agree with input := ?_, dealings := ?_ }, h.left, h.right⟩
  · rw [Machine.requested, Machine.requested, h.agree.input]
  · rw [dealings, dealings] at hdealings
    simp [Machine.requested, dealings, h.agree.input, hdealings]

private theorem TracedAlike.note (h : TracedAlike m m') (event : Event) :
    TracedAlike { m with journal := m.journal.push event }
      { m' with journal := m'.journal.push event } := by
  have hdealings := h.agree.dealings
  refine ⟨{ h.agree with dealings := ?_ }, h.left, h.right⟩
  rw [dealings, dealings] at hdealings ⊢
  simp [hdealings]

theorem respected_tracedAlike : Respected (fun _ => False) TracedAlike where
  core_eq _ _ h := h.agree.core_eq
  pc_eq _ _ h := h.agree.pc
  flushes _ _ h := by rw [h.agree.output]
  withCore _ _ _ h :=
    ⟨{ h.agree with memory := rfl, registers := rfl, stack := rfl }, h.left, h.right⟩
  withPc _ _ _ h := ⟨{ h.agree with pc := rfl }, h.left, h.right⟩
  flushed _ _ h := ⟨{ h.agree with output := by rw [h.agree.output] }, h.left, h.right⟩
  note event _ _ _ h := h.note event
  trace line := lockstep_trace line line
  traceRegisters := lockstep_traceRegisters
  writeByte := lockstep_writeByte_of_takes (fun _ _ h => by rw [h.agree.output])
    (fun _ _ h => ⟨{ h.agree with output := by rw [h.agree.output] }, h.left, h.right⟩)
    fun event _ _ h => h.note event
  readByte := lockstep_readByte_of_answer (fun _ _ h => by rw [h.agree.input])
    (fun _ _ h => h.requested) fun event _ _ _ h => h.note event

theorem lockstep_step (symbols : SymbolTable) :
    Lockstep TracedAlike (step symbols) (step symbols) :=
  respected_tracedAlike.lockstep_step symbols

/-! ### The main result -/

/-- The machine without a tracer. -/
def untraced (m : Machine) : Machine := { m with tracer := none }

theorem TakesLines.tracedAlike (h : m.TakesLines) : TracedAlike m m.untraced :=
  ⟨{ AgreeButTrace.refl m with }, h, by rintro _ ⟨⟩⟩

/-- **Tracing is transparent.** Take any machine whose tracer takes every line, with any setting of
the register dump, any state of the switch and any flips of it by others or by the keys of a
terminal. Within any number of steps it has the same result as without its tracer, or none in both
cases, and all that the program has made of the machine by then is the same, down to the number of
flushes of the output. -/
theorem run_eq_run_untraced (symbols : SymbolTable) (m : Machine) (h : m.TakesLines)
    (fuel : Nat) :
    (loop symbols fuel m).2 = (loop symbols fuel m.untraced).2 ∧
      SameState (loop symbols fuel m).1 (loop symbols fuel m.untraced).1 ∧
      (loop symbols fuel m).1.flushCount = (loop symbols fuel m.untraced).1.flushCount ∧
      (run symbols fuel m).2 = (run symbols fuel m.untraced).2 ∧
      SameState (run symbols fuel m).1 (run symbols fuel m.untraced).1 ∧
      (run symbols fuel m).1.flushCount = (run symbols fuel m.untraced).1.flushCount := by
  -- The relation that carries the induction is `TracedAlike`; it holds at the start.
  obtain ⟨hloop, hloop'⟩ := lockstep_loop (lockstep_step symbols) (fun _ _ h => h.agree.pc)
    (fun _ _ h => h.agree.haltAt) fuel h.tracedAlike
  obtain ⟨hrun, hrun'⟩ := lockstep_run (lockstep_step symbols) respected_tracedAlike.lockstep_flush
    (fun _ _ h => h.agree.pc) (fun _ _ h => h.agree.haltAt) fuel h.tracedAlike
  exact ⟨hloop, hloop'.agree.sameState, hloop'.agree.flushCount_eq, hrun,
    hrun'.agree.sameState, hrun'.agree.flushCount_eq⟩

/-- A machine on which others flip the switch before every other poll, and the user in between. -/
def flipping : Machine :=
  { ofImage ⟨#[20, 32768, 19, 32768, 0], by decide⟩ with
    input := .terminal { keys := [.toggleTrace, .character 'a'] }
    tracer := some { dumpsRegisters := true, flips := fun n => n % 2 = 0 } }

theorem run_eq_run_untraced_flipping :
    flipping.TakesLines ∧
      (run .empty 3 flipping).2 = (run .empty 3 flipping.untraced).2 ∧
      SameState (run .empty 3 flipping).1 (run .empty 3 flipping.untraced).1 := by
  have h : flipping.TakesLines := by
    rintro _ ⟨⟩ n -
    rfl
  obtain ⟨-, -, -, hresult, hstate, -⟩ := run_eq_run_untraced .empty flipping h 3
  exact ⟨h, hresult, hstate⟩

end Machine

end WordMachine
