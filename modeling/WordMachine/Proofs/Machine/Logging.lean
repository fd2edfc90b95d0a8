import WordMachine.Proofs.Machine.Traffic

/-!
# What a run logs

A machine **logs** everything when it has a tracer that takes every line, with a switch that nobody
else flips (`Machine.Logs`). A step of such a machine that starts with tracing on logs its
instruction and the remark of the instruction, and one that ends with tracing on logs the registers
if they were asked for (`traceLines_of_step`). A remark is logged before the instruction takes
effect, so it is there also if the instruction fails.

With tracing on all along, what a run logs is what its steps log one after another (`log_of_loop`).
-/

namespace WordMachine

namespace Machine

open WordMachine.Action

variable {symbols : SymbolTable} {m m' m'' : Machine} {dumps : Bool} {logged more : List String}

/-! ### Tracers that log -/

/-- The machine has a tracer that takes every line from now on, and nobody else flips the switch any
more. `dumps` says whether the registers are shown. -/
def Logs (dumps : Bool) (m : Machine) : Prop :=
  ∃ tracer, m.tracer = some tracer ∧ tracer.dumpsRegisters = dumps ∧
    (∀ n, tracer.offered ≤ n → tracer.takes n = true) ∧
      ∀ n, tracer.polls ≤ n → tracer.flips n = false

theorem Logs.takesLines (h : m.Logs dumps) : m.TakesLines := by
  obtain ⟨tracer, htracer, -, htakes, -⟩ := h
  rintro _ hmem
  cases htracer.symm.trans hmem
  exact htakes

private theorem Logs.of_tracer_eq (h : m.Logs dumps) (htracer : m.tracer = m'.tracer) :
    m'.Logs dumps := by
  rw [Logs, ← htracer]
  exact h

/-- Between two machines that log everything, the given lines have been logged. The switch has not
moved, and nothing else has happened. -/
structure Logged (dumps : Bool) (m m' : Machine) (logged : List String) : Prop where
  logs : m'.Logs dumps
  agree : m.AgreeButTrace m'
  tracing : m'.tracing = m.tracing
  traceLines : m'.traceLines = m.traceLines ++ logged

theorem Logged.refl (h : m.Logs dumps) : Logged dumps m m [] :=
  ⟨h, .refl m, rfl, (List.append_nil _).symm⟩

theorem Logged.trans (h : Logged dumps m m' logged) (h' : Logged dumps m' m'' more) :
    Logged dumps m m'' (logged ++ more) where
  logs := h'.logs
  agree := h.agree.trans h'.agree
  tracing := h'.tracing.trans h.tracing
  traceLines := by rw [h'.traceLines, h.traceLines, List.append_assoc]

/-! ### Tracing -/

/-- Polling finds the switch where it is. -/
private theorem exists_pollSwitch_of_logs (h : m.Logs dumps) :
    ∃ polled, pollSwitch m = .ok m.tracing polled ∧ Logged dumps m polled [] := by
  obtain ⟨tracer, htracer, hdumps, htakes, hflips⟩ := h
  have hsteady : (m.tracing != tracer.flips tracer.polls) = m.tracing := by
    rw [hflips _ (Nat.le_refl _), Bool.bne_false]
  have hpoll : pollSwitch m =
      .ok m.tracing { m with tracer := some { tracer with polls := tracer.polls + 1 } } := by
    rw [pollSwitch_apply, htracer]
    simp only [hsteady]
  exact ⟨_, hpoll, ⟨_, rfl, hdumps, htakes, fun n hn => hflips n (Nat.le_of_succ_le hn)⟩,
    quiet_pollSwitch.of_ok hpoll, rfl, (List.append_nil _).symm⟩

private theorem exists_offerLine_of_logs (h : m.Logs dumps) (line : String) :
    ∃ offered, offerLine line m = .ok () offered ∧ Logged dumps m offered [line] := by
  obtain ⟨tracer, htracer, hdumps, htakes, hflips⟩ := h
  have hoffer : offerLine line m = .ok () { m with
      tracer := some { tracer with offered := tracer.offered + 1 }
      journal := m.journal.push (.traced line) } := by
    rw [offerLine_apply, htracer]
    simp only [htakes _ (Nat.le_refl _), if_true]
  refine ⟨_, hoffer, ⟨_, rfl, hdumps, fun n hn => htakes n (Nat.le_of_succ_le hn), hflips⟩,
    (quiet_offerLine line).of_ok hoffer, rfl, ?_⟩
  simp [traceLines, Event.line?]

/-- A line is logged if tracing is on. -/
private theorem exists_trace_of_logs (h : m.Logs dumps) (line : String) :
    ∃ traced, trace (fun _ => line) m = .ok () traced ∧
      Logged dumps m traced (if m.tracing then [line] else []) := by
  obtain ⟨polled, hpoll, hpolled⟩ := exists_pollSwitch_of_logs h
  cases htracing : m.tracing with
  | false =>
    refine ⟨polled, ?_, hpolled⟩
    rw [trace, bind_apply, hpoll, htracing]
    rfl
  | true =>
    obtain ⟨offered, hoffer, hoffered⟩ := exists_offerLine_of_logs hpolled.logs line
    refine ⟨offered, ?_, hpolled.trans hoffered⟩
    rw [trace, bind_apply, hpoll, htracing]
    exact hoffer

private theorem exists_announce_of_logs (h : m.Logs dumps) (remark : Option String) :
    ∃ announced, announce remark m = .ok () announced ∧
      Logged dumps m announced (if m.tracing then remark.toList else []) := by
  cases remark with
  | none =>
    rw [Option.toList_none, ite_self]
    exact ⟨m, rfl, .refl h⟩
  | some line => exact exists_trace_of_logs h line

/-- The registers are logged if tracing is on and they were asked for. -/
private theorem exists_traceRegisters_of_logs (h : m.Logs dumps) :
    ∃ dumped, traceRegisters m = .ok () dumped ∧
      Logged dumps m dumped (if m.tracing && dumps then [m.registers.text] else []) := by
  obtain ⟨polled, hpoll, hpolled⟩ := exists_pollSwitch_of_logs h
  have hany : polled.tracer.any (·.dumpsRegisters) = dumps := by
    obtain ⟨tracer, htracer, hdumps, -⟩ := hpolled.logs
    rw [htracer, Option.any_some, hdumps]
  cases htracing : m.tracing with
  | false =>
    refine ⟨polled, ?_, hpolled⟩
    rw [traceRegisters, bind_apply, hpoll, htracing]
    rfl
  | true =>
    cases dumps with
    | false =>
      refine ⟨polled, ?_, hpolled⟩
      rw [traceRegisters, bind_apply, hpoll, htracing]
      simp only [if_true, bind_apply, get_apply, hany]
      rfl
    | true =>
      obtain ⟨offered, hoffer, hoffered⟩ :=
        exists_offerLine_of_logs hpolled.logs polled.registers.text
      refine ⟨offered, ?_, hpolled.agree.registers ▸ hpolled.trans hoffered⟩
      rw [traceRegisters, bind_apply, hpoll, htracing]
      simp only [if_true, bind_apply, get_apply, hany]
      exact hoffer

/-! ### Effects -/

private theorem traceLines_requested (m : Machine) : m.requested.traceLines = m.traceLines := by
  simp [requested, traceLines, Event.line?]

theorem traceLines_flush (m : Machine) : (flush.after m).traceLines = m.traceLines := by
  rw [after_flush]
  simp [traceLines, Event.line?]

/-- Effects log nothing. -/
private theorem keeps_traceLines_perform (pc next : Word) (effect : Effect) :
    (perform pc next effect).Keeps (.ker traceLines) := by
  have hpush (m : Machine) {event : Event} (hevent : event.line? = none) :
      m.traceLines = { m with journal := m.journal.push event }.traceLines := by
    simp [traceLines, hevent]
  cases effect with
  | fault e => exact .throw e
  | compute core control => exact fun _ => rfl
  | emit b =>
    refine .bind (fun m => ?_) fun _ => .pure _
    rw [after, writeByte_apply]
    cases m.output.takes m.output.offered with
    | true => exact hpush m rfl
    | false => rfl
  | receive target =>
    refine .bind (fun m => ?_) fun _ => .bind (fun m => ?_) fun _ _ => rfl
    · rw [after_flush]
      exact hpush m rfl
    · rw [after, readByte_apply]
      have hrequested := (traceLines_requested m).symm
      cases m.input.request.answer with
      | byte b => exact hrequested.trans (hpush m.requested rfl)
      | ended | failed | interrupted => exact hrequested

/-! ### Steps -/

/-- The line of the instruction that a step fetches. -/
def fetchedLine? (symbols : SymbolTable) (m : Machine) : Option String :=
  match m.fetch with
  | .ok (i, _) => some (instructionLine symbols m.pc i)
  | .error _ => none

/-- The remark of the instruction that a step fetches. -/
def remark? (m : Machine) : Option String :=
  match m.fetch with
  | .ok (i, _) => i.remark? m.core
  | .error _ => none

/-- The registers as a step logs them, if it succeeds and they were asked for. -/
def dump? (symbols : SymbolTable) (dumps : Bool) (m : Machine) : Option String :=
  if dumps then (executed? symbols m).map (·.2.registers.text) else none

/-- The lines that a step logs: the instruction, its remark, and the registers. -/
def logLines (symbols : SymbolTable) (dumps : Bool) (m : Machine) : List String :=
  match m.fetch with
  | .error _ => []
  | .ok (i, _) =>
    instructionLine symbols m.pc i :: ((i.remark? m.core).toList ++ (dump? symbols dumps m).toList)

theorem logLines_eq (symbols : SymbolTable) (dumps : Bool) (m : Machine) :
    logLines symbols dumps m =
      (fetchedLine? symbols m).toList ++ (m.remark?.toList ++ (dump? symbols dumps m).toList) := by
  rw [logLines, fetchedLine?, remark?]
  cases hfetch : m.fetch with
  | ok fetched => rfl
  | error e =>
    have hnone : dump? symbols dumps m = none := by
      simp only [dump?, executed?, hfetch, Option.map_none, ite_self]
    rw [hnone]
    rfl

/-- The lines that a step logs before the instruction takes effect, if tracing is on. -/
def firstLines (symbols : SymbolTable) (m : Machine) : List String :=
  if m.tracing then (fetchedLine? symbols m).toList ++ m.remark?.toList else []

/-- What a step does and logs. It fails to fetch an instruction and logs nothing; or it logs its
first lines and fails as the effect does; or it performs the effect, logs the registers as they are
then, and moves on. -/
theorem step_cases_of_logs (symbols : SymbolTable) (h : m.Logs dumps) :
    (∃ e, m.fetch = .error e ∧ step symbols m = .error (.badInstruction m.pc e) m) ∨
      ∃ i length announced, m.fetch = .ok (i, length) ∧
        Logged dumps m announced (firstLines symbols m) ∧
        ((∃ e failed, perform m.pc (m.pc + UInt16.ofNat length)
              (i.effect m.core m.pc (m.pc + UInt16.ofNat length)) announced = .error e failed ∧
            step symbols m = .error e failed) ∨
          ∃ control done dumped, perform m.pc (m.pc + UInt16.ofNat length)
              (i.effect m.core m.pc (m.pc + UInt16.ofNat length)) announced = .ok control done ∧
            Logged dumps done dumped
              (if done.tracing && dumps then [done.registers.text] else []) ∧
            step symbols m = .ok control (dumped.proceeded control)) := by
  rw [step_apply, firstLines, fetchedLine?, remark?]
  cases hfetch : m.fetch with
  | error e => exact .inl ⟨e, rfl, rfl⟩
  | ok fetched =>
    obtain ⟨i, length⟩ := fetched
    obtain ⟨traced, htrace, htraced⟩ := exists_trace_of_logs h (instructionLine symbols m.pc i)
    obtain ⟨announced, hannounce, hannounced⟩ :=
      exists_announce_of_logs htraced.logs (i.remark? m.core)
    have hbefore := htraced.trans hannounced
    rw [htraced.tracing] at hbefore
    refine .inr ⟨i, length, announced, rfl, ?_, ?_⟩
    · cases htracing : m.tracing <;> simpa [htracing] using hbefore
    simp only [bind_apply, htrace, hannounce]
    have hkeeps := keeps_tracer_perform m.pc (m.pc + UInt16.ofNat length)
      (i.effect m.core m.pc (m.pc + UInt16.ofNat length))
    cases hperform : perform m.pc (m.pc + UInt16.ofNat length)
        (i.effect m.core m.pc (m.pc + UInt16.ofNat length)) announced with
    | error e failed => exact .inl ⟨e, failed, rfl, rfl⟩
    | ok control done =>
      have hdone := hbefore.logs.of_tracer_eq (hkeeps.of_ok hperform)
      obtain ⟨dumped, hdump, hdumped⟩ := exists_traceRegisters_of_logs hdone
      refine .inr ⟨control, done, dumped, rfl, hdumped, ?_⟩
      simp only [hdump, proceed_apply, pure_apply]

/-- A step logs its first lines if it starts with tracing on, and the registers if it ends with
tracing on. -/
theorem traceLines_of_step (symbols : SymbolTable) (h : m.Logs dumps) :
    ((step symbols).after m).Logs dumps ∧
      ((step symbols).after m).traceLines = m.traceLines ++ (firstLines symbols m ++
        if ((step symbols).after m).tracing then (dump? symbols dumps m).toList else []) := by
  obtain ⟨e, hfetch, hstep⟩ | ⟨i, length, announced, hfetch, hbefore,
    ⟨e, failed, hperform, hstep⟩ | ⟨control, done, dumped, hperform, hdumped, hstep⟩⟩ :=
    step_cases_of_logs symbols h
  · rw [after_of_error hstep, firstLines, fetchedLine?, remark?, dump?, executed?, hfetch]
    exact ⟨h, by simp⟩
  · have htracer := (keeps_tracer_perform _ _ _).of_error hperform
    have hlines : announced.traceLines = failed.traceLines :=
      (keeps_traceLines_perform _ _ _).of_error hperform
    have hnone : dump? symbols dumps m = none := by
      simp only [dump?, executed?, hfetch, hstep, Option.map_none, ite_self]
    rw [after_of_error hstep, ← hlines, hbefore.traceLines, hnone]
    exact ⟨hbefore.logs.of_tracer_eq htracer, by simp⟩
  · have hlines : announced.traceLines = done.traceLines :=
      (keeps_traceLines_perform _ _ _).of_ok hperform
    have hdump : (dump? symbols dumps m).toList = if dumps then [done.registers.text] else [] := by
      have hexecuted : executed? symbols m = some (i, dumped.proceeded control) := by
        simp only [executed?, hfetch, hstep]
      rw [dump?, hexecuted, Option.map_some, proceeded_eq, hdumped.agree.registers]
      cases dumps <;> rfl
    rw [after_of_ok hstep, proceeded_eq]
    refine ⟨hdumped.logs, hdumped.traceLines.trans ?_⟩
    rw [← hlines, hbefore.traceLines, List.append_assoc, hdump]
    -- Nothing switches tracing behind the effect.
    dsimp only
    rw [hdumped.tracing]
    cases done.tracing <;> simp

/-- A step with tracing on before and after it logs its lines. -/
private theorem log_of_step (symbols : SymbolTable) (h : m.Logs dumps) (hon : m.tracing = true)
    (hafter : ((step symbols).after m).tracing = true) :
    ((step symbols).after m).Logs dumps ∧
      ((step symbols).after m).traceLines = m.traceLines ++ logLines symbols dumps m := by
  obtain ⟨hlogs, hlines⟩ := traceLines_of_step symbols h
  refine ⟨hlogs, hlines.trans ?_⟩
  rw [firstLines, hon, hafter, if_pos rfl, if_pos rfl, logLines_eq, List.append_assoc]

/-! ### Runs -/

/-- What a run with tracing on all along logs is what its steps log one after another. -/
theorem log_of_loop (symbols : SymbolTable) (fuel : Nat) (h : m.Logs dumps)
    (hon : ∀ s ∈ history symbols fuel m, s.tracing = true)
    (hlast : (loop symbols fuel m).1.tracing = true) :
    (loop symbols fuel m).1.traceLines =
      m.traceLines ++ (history symbols fuel m).flatMap (logLines symbols dumps) := by
  -- The machine after a step is the next one of the history, or else the last one.
  refine (history_induction (motive := fun m steps last => m = steps.headD last ∧
    (m.Logs dumps → (∀ s ∈ steps, s.tracing = true) → last.tracing = true →
      last.traceLines = m.traceLines ++ steps.flatMap (logLines symbols dumps)))
    ?_ ?_ fuel m).2 h hon hlast
  · exact fun m => ⟨rfl, fun _ _ _ => (List.append_nil _).symm⟩
  · rintro m later last ⟨hnext, ih⟩
    refine ⟨rfl, fun h hon hlast => ?_⟩
    obtain ⟨hfirst, hlater⟩ := List.forall_mem_cons.mp hon
    have hafter : ((step symbols).after m).tracing = true := by
      rw [hnext]
      cases later with
      | nil => exact hlast
      | cons s later => exact hlater s (.head _)
    obtain ⟨hlogs, hlines⟩ := log_of_step symbols h hfirst hafter
    rw [ih hlogs hlater hlast, hlines, List.flatMap_cons, List.append_assoc]

end Machine

end WordMachine
