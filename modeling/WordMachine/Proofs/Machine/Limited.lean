import WordMachine.Proofs.Machine.Causality
import WordMachine.Proofs.Machine.Traffic

/-!
# Output that runs out

A machine whose output takes `n` bytes and no more does what it would do with any output, up to the
`out` that would write one byte more. There it fails, and it is left in the state in which it came
to that `out` (`run_limited`). So a pipe that is closed or a disk that is full cuts a run cleanly.

The two runs are in lockstep on `Limited`, with a write that fails excused. It fails only when `n`
bytes have been written, since none was refused before. No other instruction looks at the limit, and
neither does the flush at the end.
-/

namespace WordMachine

open WordMachine.Action

namespace Machine

variable {symbols : SymbolTable} {n w : Nat} {m m' : Machine}

/-- The machine with an output that takes the first `n` bytes and refuses all others. -/
def limited (m : Machine) (n : Nat) : Machine :=
  { m with output := { m.output with takes := .first n } }

/-! ### Lockstep up to the limit -/

/-- The first machine is the second one with an output that takes only `n` bytes. The second one has
no tracer, and its output never fails. It was offered no more than `n` bytes so far, and all of them
are written, behind `w` bytes that had been written before. -/
structure Limited (n w : Nat) (m m' : Machine) : Prop where
  eq : m = m'.limited n
  untraced : m'.tracer = none
  output : m'.output.NeverFails
  within : m'.output.offered ≤ n
  length_written : m'.written.length = w + m'.output.offered

/-- The error says that a byte was not taken. -/
def Refused (e : MachineError) : Prop := e = .device .writeFailed

namespace Limited

private theorem untraced' (h : Limited n w m m') : m.tracer = none := by
  rw [h.eq]
  exact h.untraced

/-- The first machine has room for a byte until it was offered `n`. -/
theorem takes_iff (h : Limited n w m m') :
    m.output.takes m.output.offered = true ↔ m'.output.offered < n := by
  rw [h.eq]
  exact decide_eq_true_iff

private theorem note (h : Limited n w m m') {event : Event} (hevent : event.written? = none) :
    Limited n w { m with journal := m.journal.push event }
      { m' with journal := m'.journal.push event } :=
  { h with
    eq := by rw [h.eq]; rfl
    length_written := by simpa [Machine.written, hevent] using h.length_written }

/-- A byte that both outputs take is written and counted. -/
private theorem wrote (h : Limited n w m m') (b : UInt8) (hroom : m'.output.offered < n) :
    Limited n w { m with output := m.output.offer.2, journal := m.journal.push (.wrote b) }
      { m' with output := m'.output.offer.2, journal := m'.journal.push (.wrote b) } where
  eq := by rw [h.eq]; rfl
  untraced := h.untraced
  output := { h.output with }
  within := hroom
  length_written := by
    have hlength := h.length_written
    rw [Machine.written] at hlength ⊢
    simp [Event.written?, Output.offer, hlength, Nat.add_assoc]

private theorem requested (h : Limited n w m m') : Limited n w m.requested m'.requested :=
  { h with
    eq := by rw [h.eq]; rfl
    length_written := by rw [written_requested]; exact h.length_written }

private theorem lockstep_writeByte (n w : Nat) (b : UInt8) :
    LockstepUnless Refused (Limited n w) (writeByte b) (writeByte b) := by
  intro m m' h
  rw [writeByte_apply, writeByte_apply, if_pos (h.output.takes _)]
  by_cases hroom : m'.output.offered < n
  · rw [if_pos (h.takes_iff.mpr hroom)]
    exact .ok () (h.wrote b hroom)
  · rw [if_neg (mt h.takes_iff.mp hroom)]
    have hrefused : Refused (.device .writeFailed) := rfl
    exact .excused hrefused _ _

end Limited

/-- The machines are in lockstep, but for a write that the first output refuses. -/
private theorem respected_limited (n w : Nat) : Respected Refused (Limited n w) where
  core_eq _ _ h := by rw [h.eq]; rfl
  pc_eq _ _ h := by rw [h.eq]; rfl
  flushes _ _ h := by rw [h.eq]; rfl
  withCore _ _ _ h := { h with eq := by rw [h.eq]; rfl }
  withPc _ _ _ h := { h with eq := by rw [h.eq]; rfl }
  flushed _ _ h := { h with eq := by rw [h.eq]; rfl, output := { h.output with } }
  note _ hevent _ _ h := h.note hevent
  trace := lockstep_trace_of_untraced fun _ _ h => ⟨h.untraced', h.untraced⟩
  traceRegisters := lockstep_traceRegisters_of_untraced fun _ _ h => ⟨h.untraced', h.untraced⟩
  writeByte := Limited.lockstep_writeByte n w
  readByte := lockstep_readByte_of_answer (fun _ _ h => by rw [h.eq]; rfl)
    (fun _ _ h => h.requested) fun _ hevent _ _ h => h.note hevent

/-! ### The write that is refused -/

/-- Without devices only a fault makes an instruction fail. -/
private theorem eq_fault_of_isSilent {pc next : Word} {effect : Effect} {e : MachineError}
    (hsilent : effect.IsSilent) (h : perform pc next effect m = .error e m') :
    effect = .fault e := by
  cases effect with
  | fault e =>
    cases h
    rfl
  | compute core control => cases h
  | emit b => exact hsilent.elim
  | receive target => exact hsilent.elim

/-- A byte is refused only where there is no room for it. -/
private theorem not_takes_of_refused {pc next : Word} {b : UInt8} {e : MachineError}
    (h : perform pc next (.emit b) m = .error e m') :
    ¬ m.output.takes m.output.offered = true := by
  intro hroom
  rw [perform, bind_apply, writeByte_apply, if_pos hroom] at h
  cases h

/-- An `in` fails with other errors. -/
private theorem receive_ne_refused {pc next : Word} {target : Register} :
    perform pc next (.receive target) m ≠ .error (.device .writeFailed) m' := by
  intro h
  obtain hflush | ⟨_, flushed, -, h⟩ := bind_eq_error_iff.mp h
  · rw [flush_apply] at hflush
    split at hflush <;> cases hflush
  · obtain hread | ⟨_, _, -, ⟨⟩⟩ := bind_eq_error_iff.mp h
    obtain ⟨-, ⟨⟨⟩, -⟩ | ⟨⟨⟩⟩ | ⟨⟨⟩⟩⟩ := readByte_error hread

/-- An instruction whose write is refused is an `out` for which there is no room. -/
private theorem exists_output_of_refused {i : Instruction} {pc next : Word}
    (h : perform pc next (i.effect m.core pc next) m = .error (.device .writeFailed) m') :
    (∃ source, i = .output source) ∧ ¬ m.output.takes m.output.offered = true := by
  cases i with
  | output source => exact ⟨⟨source, rfl⟩, not_takes_of_refused h⟩
  | input target => exact absurd h receive_ne_refused
  | _ =>
    refine (isFault_of_effect_eq_fault (eq_fault_of_isSilent ?_ h)).elim
    exact Instruction.isSilent_effect nofun nofun

/-- A step of a machine without a tracer is refused a write only at an `out` for which there is no
room. -/
private theorem exists_output_of_step_refused (huntraced : m.tracer = none)
    (h : step symbols m = .error (.device .writeFailed) m') :
    (∃ source length, m.fetch = .ok (.output source, length)) ∧
      ¬ m.output.takes m.output.offered = true := by
  obtain ⟨_, -, ⟨⟩, -⟩ | ⟨-, htraced⟩ | ⟨i, length, m₁, hfetch, -, hsame, hperform⟩ :=
    exists_perform_of_step_error h
  · exact absurd huntraced htraced
  · rw [hsame huntraced] at hperform
    obtain ⟨⟨source, rfl⟩, hroom⟩ := exists_output_of_refused hperform
    exact ⟨⟨source, length, hfetch⟩, hroom⟩

/-- The machine stands at an `out` that is carried out and writes the byte `b`. -/
structure AtWrite (symbols : SymbolTable) (m : Machine) (b : UInt8) : Prop where
  fetch : ∃ source length, m.fetch = .ok (.output source, length)
  step : ∃ control m', step symbols m = .ok control m' ∧ m'.written = m.written ++ [b]

/-- An output that never fails carries out the `out`s that it comes to. -/
private theorem exists_atWrite {source : Operand} {length : Nat} (huntraced : m.tracer = none)
    (houtput : m.output.NeverFails) (hfetch : m.fetch = .ok (.output source, length)) :
    ∃ b, AtWrite symbols m b ∧ emitted? symbols m = some b := by
  have hlines : m.TakesLines := .of_untraced huntraced
  have hobliging : m.Obliging (.output source) :=
    ⟨hlines, houtput.takes _, houtput.flushes _, nofun⟩
  obtain ⟨control, m', hstep⟩ : ∃ control m', step symbols m = .ok control m' :=
    exists_step_of_obliging hfetch hobliging nofun
  have hemitted : emitted? symbols m = some (m.registers.value source).toUInt8 := by
    simp only [emitted?, executed?, hfetch, hstep, Option.bind_some, Instruction.emitted?]
  obtain ⟨htraffic, -⟩ := traffic_of_step symbols hlines
  have hwritten := htraffic.written
  rw [after_of_ok hstep, hemitted] at hwritten
  exact ⟨_, ⟨⟨source, length, hfetch⟩, control, m', hstep, hwritten⟩, hemitted⟩

/-- What the first machine leaves when it is refused a byte: `n` bytes are taken, and the second
machine writes the byte. -/
private theorem Limited.of_refused {failed : Machine} (h : Limited n w m m')
    (hstep : step symbols m = .error (.device .writeFailed) failed) :
    m'.output.offered = n ∧ m'.SameState (flush.after failed) ∧
      ∃ b, AtWrite symbols m' b ∧ emitted? symbols m' = some b := by
  obtain ⟨⟨source, length, hfetch⟩, hroom⟩ := exists_output_of_step_refused h.untraced' hstep
  have hfull : m'.output.offered = n :=
    Nat.le_antisymm h.within (Nat.le_of_not_lt (mt h.takes_iff.mpr hroom))
  have hleft : m.SameState (flush.after failed) :=
    sameState_flush_of_step_error h.untraced' hstep
  -- The limit is no part of the state, and instructions are fetched without it.
  rw [h.eq] at hfetch hleft
  exact ⟨hfull, { hleft with }, exists_atWrite h.untraced h.output hfetch⟩

/-! ### The main result -/

/-- A loop that comes to an `out` and goes on has written all that was written before, then the
byte, and then what comes after. -/
private theorem exists_written_of_loop {k fuel : Nat} {s : Machine} {b : UInt8}
    (hlines : m.TakesLines)
    (hk : k < fuel) (hreached : loop symbols k m = (s, none)) (hb : emitted? symbols s = some b) :
    ∃ first rest, s.written = m.written ++ first ∧
      (loop symbols fuel m).1.written = m.written ++ (first ++ b :: rest) := by
  have hfirst := (traffic_of_loop symbols k hlines).written
  rw [hreached] at hfirst
  obtain ⟨more, rfl⟩ := Nat.exists_eq_add_of_lt hk
  have hs : s.TakesLines :=
    takesLines_of_mem_history hlines (mem_history_iff.mpr ⟨k, hk, hreached⟩)
  have hlast := (traffic_of_loop symbols (more + 1) hs).written
  rw [history_succ, List.filterMap_cons_some hb, hfirst, List.append_assoc] at hlast
  rw [Nat.add_assoc, loop_add_of_none hreached]
  exact ⟨_, _, hfirst, hlast⟩

/-- What a run has written is what its loop has written. -/
private theorem written_run (symbols : SymbolTable) (fuel : Nat) (m : Machine) :
    (run symbols fuel m).1.written = (loop symbols fuel m).1.written := by
  obtain hrun | hrun := run_fst symbols fuel m
  · rw [hrun]
  · rw [hrun]
    exact (keeps_sameState_flush _).written.symm

/-- **An output that runs out cuts a run cleanly.** Take a machine without a tracer, with an output
that never fails and that was offered nothing so far. Take any program, any input and any number of
steps, and let the bytes that the run writes be `emitted`.

If these are no more than `n` bytes, then with an output that takes `n` bytes the run is the same:
it has the same result, or none in both cases, and leaves the same machine but for the limit.

If they are more, then with such an output the run fails for a byte that was not taken. It has
written the first `n` bytes of `emitted`. The machine that it leaves is in the state in which the
run without the limit comes to the `out` that writes the byte after these. -/
theorem run_limited (symbols : SymbolTable) (m : Machine) (huntraced : m.tracer = none)
    (houtput : m.output.NeverFails) (hoffered : m.output.offered = 0) (n fuel : Nat) :
    ∃ emitted, (run symbols fuel m).1.written = m.written ++ emitted ∧
      (emitted.length ≤ n →
        run symbols fuel (m.limited n) =
          ((run symbols fuel m).1.limited n, (run symbols fuel m).2)) ∧
      (n < emitted.length → ∃ k s b last,
        k < fuel ∧ loop symbols k m = (s, none) ∧ AtWrite symbols s b ∧ emitted[n]? = some b ∧
          run symbols fuel (m.limited n) = (last, some (.error (.device .writeFailed))) ∧
            last.written = m.written ++ emitted.take n ∧ s.SameState last) := by
  have hlines : m.TakesLines := .of_untraced huntraced
  have hstart : Limited n m.written.length (m.limited n) m :=
    ⟨rfl, huntraced, houtput, by omega, by omega⟩
  rw [written_run]
  obtain ⟨k, s, s', e, failed, hk, -, hreached, hs, hstep, rfl, hloop⟩ | ⟨hresult, hlast⟩ :=
    exists_step_of_loop_excused ((respected_limited n _).lockstep_step symbols)
      (fun _ _ h => (respected_limited n _).pc_eq h) (fun _ _ h => by rw [h.eq]; rfl) fuel hstart
  · -- The limit is reached: what was written before is exactly `n` bytes.
    obtain ⟨hfull, hleft, b, hat, hb⟩ := hs.of_refused hstep
    obtain ⟨first, rest, hfirst, hwritten⟩ := exists_written_of_loop hlines hk hreached hb
    obtain rfl : first.length = n := by
      have hlength := hs.length_written
      rw [hfirst, List.length_append, hfull] at hlength
      omega
    refine ⟨first ++ b :: rest, hwritten, fun hle => absurd hle (by simp), fun _ => ?_⟩
    refine ⟨k, s', b, flush.after failed, hk, hreached, hat, by simp, run_of_loop_error hloop, ?_,
      hleft⟩
    rw [← hleft.written, hfirst, List.take_left]
  · -- The limit is not reached, so the runs are in lockstep to the end.
    have hwritten := (traffic_of_loop symbols fuel hlines).written
    refine ⟨_, hwritten, fun _ => ?_, fun hmore => ?_⟩
    · obtain ⟨hresult, hlast⟩ :=
        lockstep_run_of_loop (respected_limited n _).lockstep_flush hresult hlast
      exact Prod.ext hlast.eq hresult
    · have hlength := hlast.length_written
      have hwithin := hlast.within
      rw [hwritten, List.length_append] at hlength
      omega

/-- A program that writes a byte. -/
def writingImage : Image := ⟨#[19, 97, 0, 0], by decide⟩

/-- A machine that writes this byte and then stops. -/
def writing : Machine := { ofImage writingImage with haltAt := some 0 }

private theorem exists_run_writing :
    ∃ f, run .empty 1 writing = (f, some (.ok ⟨0, .breakpoint⟩)) ∧ f.written = [97] := by
  have hfetch : writing.fetch = .ok (.output (.literal 97), 2) := by
    have hmemory : writing.memory = .ofImage writingImage := rfl
    exact (fetch_of_image hmemory (Nat.le_refl 4)).trans rfl
  have hstep : ∃ m', step .empty writing = .ok ⟨none, 2⟩ m' ∧ m'.haltAt = some 0 ∧
      m'.output.flushes m'.output.flushed = true ∧ m'.written = [97] := by
    rw [step_apply, hfetch]
    exact ⟨_, rfl, rfl, rfl, rfl⟩
  obtain ⟨m', hstep, hhaltAt, hflushes, hwritten⟩ := hstep
  have hhalt : m'.haltReason? writing.pc ⟨none, 2⟩ = some .breakpoint := by
    rw [haltReason?, hhaltAt]
    rfl
  refine ⟨_, run_of_loop_ok (loop_succ_of_halt hstep hhalt 0) hflushes, ?_⟩
  rw [← (keeps_sameState_flush m').written, hwritten]

theorem run_limited_writing :
    writing.tracer = none ∧ writing.output.NeverFails ∧ writing.output.offered = 0 ∧
      (∃ f, run .empty 1 writing = (f, some (.ok ⟨0, .breakpoint⟩)) ∧ f.written = [97] ∧
        run .empty 1 (writing.limited 1) = (f.limited 1, some (.ok ⟨0, .breakpoint⟩))) ∧
      ∃ last, run .empty 1 (writing.limited 0) =
          (last, some (.error (.device .writeFailed))) ∧
        last.written = [] ∧ writing.SameState last := by
  have huntraced : writing.tracer = none := rfl
  have houtput : writing.output.NeverFails := ⟨fun _ => rfl, fun _ => rfl⟩
  obtain ⟨f, hrun, hwritten⟩ := exists_run_writing
  refine ⟨huntraced, houtput, rfl, ⟨f, hrun, hwritten, ?_⟩, ?_⟩
  · obtain ⟨emitted, hemitted, hroom, -⟩ := run_limited .empty writing huntraced houtput rfl 1 1
    rw [hrun] at hemitted hroom
    obtain rfl : [97] = emitted := hwritten.symm.trans hemitted
    exact hroom (Nat.le_refl 1)
  · obtain ⟨emitted, hemitted, -, hfull⟩ := run_limited .empty writing huntraced houtput rfl 0 1
    rw [hrun] at hemitted
    obtain rfl : [97] = emitted := hwritten.symm.trans hemitted
    obtain ⟨k, s, b, last, hk, hreached, -, -, hfails, hlast, hleft⟩ := hfull Nat.one_pos
    -- The only step of the run is the one that is refused.
    obtain rfl := Nat.lt_one_iff.mp hk
    rw [loop, Prod.mk.injEq] at hreached
    exact ⟨last, hfails, hlast, hreached.1 ▸ hleft⟩

end Machine

end WordMachine
