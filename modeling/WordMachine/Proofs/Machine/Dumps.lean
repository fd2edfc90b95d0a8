import WordMachine.Proofs.Machine.Logging

/-!
# Register dumps and the switch

The switch of the tracer is polled before an instruction is carried out, and again before the
registers are shown. In between, an `in` may take keys that flip it. So a step may show the
registers behind an instruction that was not traced, and it may trace an instruction without showing
the registers (`dumps_follow_switch`). It does one of the two exactly when it has taken the key that
flips the switch an odd number of times.
-/

namespace WordMachine

namespace Machine

open WordMachine.Action

variable {symbols : SymbolTable} {m m' m'' : Machine} {dumps : Bool} {keys later : List Key}

/-- The keys that were taken, in chronological order. -/
def pressed (m : Machine) : List Key := m.journal.toList.filterMap Event.key?

private theorem pressed_eq_filterMap_dealings (m : Machine) :
    m.pressed = m.dealings.filterMap Event.key? :=
  (filterMap_dealings (fun _ => rfl) m).symm

/-- On the way from `m` to `m'` the given keys were taken, and nothing else has moved the switch. -/
structure Switched (m m' : Machine) (keys : List Key) : Prop where
  pressed : m'.pressed = m.pressed ++ keys
  tracing : m'.tracing = Terminal.tracingAfter m.tracing keys

namespace Switched

/-- The keys that were taken are among the events. -/
private theorem of_events (events : List Event) (hdealings : m'.dealings = m.dealings ++ events)
    (htracing : m'.tracing = Terminal.tracingAfter m.tracing (events.filterMap Event.key?)) :
    Switched m m' (events.filterMap Event.key?) where
  pressed := by
    rw [pressed_eq_filterMap_dealings, pressed_eq_filterMap_dealings, hdealings,
      List.filterMap_append]
  tracing := htracing

/-- Without an event no key was taken. -/
private theorem of_dealings_eq (hdealings : m.dealings = m'.dealings)
    (htracing : m'.tracing = m.tracing) :
    Switched m m' [] :=
  .of_events [] (by rw [hdealings, List.append_nil]) htracing

theorem trans (h : Switched m m' keys) (h' : Switched m' m'' later) :
    Switched m m'' (keys ++ later) where
  pressed := by rw [h'.pressed, h.pressed, List.append_assoc]
  tracing := by rw [h'.tracing, h.tracing, Terminal.tracingAfter_append]

end Switched

private theorem Logged.switched {logged : List String} (h : Logged dumps m m' logged) :
    Switched m m' [] := .of_dealings_eq h.agree.dealings h.tracing

/-! ### Keys taken by instructions -/

section Perform

variable {i : Instruction} {pc next : Word} {effect : Effect} {target : Register} {b : UInt8}
  {control : Control}

private theorem switched_of_isSilent (h : effect.IsSilent) :
    Switched m ((perform pc next effect).after m) [] := by
  cases effect with
  | fault e => exact .of_dealings_eq rfl rfl
  | compute core control => exact .of_dealings_eq rfl rfl
  | emit b => exact h.elim
  | receive target => exact h.elim

private theorem switched_emit (h : perform pc next (.emit b) m = .ok control m') :
    Switched m m' [] := by
  obtain ⟨_, _, hwrite, h⟩ := bind_eq_ok_iff.mp h
  cases h
  rw [writeByte_apply] at hwrite
  split at hwrite <;> cases hwrite
  exact .of_events [.wrote b] (dealings_push { m with output := _ } rfl) rfl

/-- A request takes keys until one of them ends it. -/
private theorem switched_requested (m : Machine) :
    Switched m m.requested m.input.request.pressed := by
  have hkeys : (Event.requested :: m.input.request.pressed.map Event.pressed).filterMap
      Event.key? = m.input.request.pressed := by
    rw [List.filterMap_cons_none rfl, List.filterMap_map]
    exact List.filterMap_some
  have hswitched := Switched.of_events _ (dealings_requested m) (by rw [hkeys]; rfl)
  rwa [hkeys] at hswitched

private theorem switched_flush (h : flush m = .ok () m') : Switched m m' [] := by
  refine .of_events [.flushed true] (flush_eq_ok h).2 ?_
  rw [← after_of_ok h, after_flush]
  rfl

private theorem switched_readByte (h : readByte pc m = .ok b m') :
    Switched m m' m.input.request.pressed := by
  rw [readByte_apply] at h
  split at h <;> cases h
  have hevents := dealings_push m.requested (rfl : (Event.received b).line? = none)
  have hreceived : Switched m.requested _ [] := .of_events [.received b] hevents rfl
  rw [← List.append_nil m.input.request.pressed]
  exact (switched_requested m).trans hreceived

private theorem switched_receive (h : perform pc next (.receive target) m = .ok control m') :
    Switched m m' m.input.request.pressed := by
  obtain ⟨_, flushed, hflush, h⟩ := bind_eq_ok_iff.mp h
  obtain ⟨b, read, hread, h⟩ := bind_eq_ok_iff.mp h
  cases h
  have hswitched := (switched_flush hflush).trans (switched_readByte hread)
  rw [(flush_eq_ok hflush).1] at hswitched
  exact ⟨hswitched.pressed, hswitched.tracing⟩

/-- Only an `in` takes keys. -/
private theorem switched_perform
    (h : perform pc next (i.effect m.core pc next) m = .ok control m') :
    Switched m m' (if i.asks then m.input.request.pressed else []) := by
  cases i with
  | output source => exact switched_emit h
  | input target => exact switched_receive h
  | _ =>
    rw [← after_of_ok h]
    exact switched_of_isSilent (Instruction.isSilent_effect nofun nofun)

end Perform

/-! ### Keys taken by steps -/

/-- The keys that a step takes, if it succeeds. -/
def keysTaken (m : Machine) : List Key := if m.startsInput then m.input.request.pressed else []

private theorem switched_of_step {control : Control} (h : m.Logs dumps)
    (hstep : step symbols m = .ok control m') : Switched m m' m.keysTaken := by
  obtain ⟨_, -, hfails⟩ | ⟨i, length, announced, hfetch, hbefore, ⟨_, _, -, hfails⟩ |
    ⟨control', done, dumped, hperform, hdumped, hok⟩⟩ := step_cases_of_logs symbols h
  · cases hstep.symm.trans hfails
  · cases hstep.symm.trans hfails
  · cases hstep.symm.trans hok
    rw [hbefore.agree.core_eq] at hperform
    have hkeys : m.keysTaken = if i.asks then announced.input.request.pressed else [] := by
      rw [keysTaken, startsInput, hfetch, hbefore.agree.input]
    -- Neither what is traced nor moving on has to do with keys.
    have hswitched := (hbefore.switched.trans (switched_perform hperform)).trans hdumped.switched
    rw [List.nil_append, List.append_nil, ← hkeys] at hswitched
    rw [proceeded_eq]
    exact ⟨hswitched.pressed, hswitched.tracing⟩

/-! ### Lines of steps -/

/-- The line of the instruction in the trace of a step. It is there if tracing is on when the step
starts. -/
def tracedInstruction? (symbols : SymbolTable) (m : Machine) : Option String :=
  if m.tracing then fetchedLine? symbols m else none

/-- The remark of the instruction in the trace of a step. -/
def tracedRemark? (m : Machine) : Option String := if m.tracing then m.remark? else none

/-- The registers in the trace of a step. They are there if the step succeeds and tracing is on when
it ends. -/
def tracedDump? (symbols : SymbolTable) (m : Machine) : Option String :=
  if ((step symbols).after m).tracing then dump? symbols true m else none

/-- The lines that a step adds to the trace. -/
def tracedLines (symbols : SymbolTable) (m : Machine) : List String :=
  (tracedInstruction? symbols m).toList ++ m.tracedRemark?.toList ++
    (tracedDump? symbols m).toList

private theorem traced_of_step (symbols : SymbolTable) (h : m.Logs true) :
    ((step symbols).after m).Logs true ∧
      ((step symbols).after m).traceLines = m.traceLines ++ tracedLines symbols m := by
  obtain ⟨hlogs, hlines⟩ := traceLines_of_step symbols h
  refine ⟨hlogs, hlines.trans (congrArg _ ?_)⟩
  rw [tracedLines, tracedInstruction?, tracedRemark?, tracedDump?, firstLines]
  cases m.tracing <;> cases ((step symbols).after m).tracing <;> simp

private theorem traced_of_loop (symbols : SymbolTable) (fuel : Nat) (h : m.Logs true) :
    (loop symbols fuel m).1.traceLines =
      m.traceLines ++ (history symbols fuel m).flatMap (tracedLines symbols) := by
  refine history_induction (motive := fun m steps last => m.Logs true →
    last.traceLines = m.traceLines ++ steps.flatMap (tracedLines symbols)) ?_ ?_ fuel m h
  · exact fun m _ => (List.append_nil _).symm
  · intro m later last ih h
    obtain ⟨hlogs, hlines⟩ := traced_of_step symbols h
    rw [ih hlogs, hlines, List.flatMap_cons, List.append_assoc]

/-- The machine logs all along. -/
private theorem logs_of_mem_history {fuel : Nat} {s : Machine} (h : m.Logs true)
    (hs : s ∈ history symbols fuel m) : s.Logs true := by
  refine history_induction (motive := fun m steps _ =>
    m.Logs true → ∀ s ∈ steps, s.Logs true) ?_ ?_ fuel m h s hs
  · exact fun _ _ => nofun
  · intro m later _ ih h s hs
    obtain rfl | hs := List.mem_cons.mp hs
    · exact h
    · exact ih (traced_of_step symbols h).1 s hs

private theorem isSome_tracedInstruction? {control : Control}
    (hstep : step symbols m = .ok control m') :
    (tracedInstruction? symbols m).isSome = m.tracing := by
  obtain ⟨i, length, -, -, hfetch, -⟩ := exists_perform_of_step hstep
  rw [tracedInstruction?, fetchedLine?, hfetch]
  cases m.tracing <;> rfl

private theorem isSome_tracedDump? {control : Control} (hstep : step symbols m = .ok control m') :
    (tracedDump? symbols m).isSome = m'.tracing := by
  obtain ⟨i, length, -, -, hfetch, -⟩ := exists_perform_of_step hstep
  rw [tracedDump?, dump?, executed?, hfetch, hstep, after_of_ok hstep]
  cases m'.tracing <;> rfl

private theorem tracedDump?_of_error {e : MachineError} (hstep : step symbols m = .error e m') :
    tracedDump? symbols m = none := by
  have hnone : dump? symbols true m = none := by
    rw [dump?, executed?, hstep]
    cases m.fetch <;> rfl
  rw [tracedDump?, hnone, ite_self]

/-! ### The main result -/

/-- **Register dumps follow the switch.** Take a machine whose tracer takes every line and shows the
registers, with any program and any input, and a run of any length in which only the keys of a
terminal flip the switch for tracing.

The trace grows by the lines of the steps one after another. A step that succeeds writes the line of
its instruction if and only if tracing is on when it starts, and it writes the registers if and only
if tracing is on when it ends. So it writes both or neither exactly when an even number of the keys
that it takes flip the switch. These are the keys that an `in` takes; no other step takes any. A
step that fails writes no registers. -/
theorem dumps_follow_switch (symbols : SymbolTable) (m : Machine) (fuel : Nat)
    (h : m.Logs true) :
    (run symbols fuel m).1.traceLines =
        m.traceLines ++ (history symbols fuel m).flatMap (tracedLines symbols) ∧
      ∀ s ∈ history symbols fuel m,
        (∀ control s', step symbols s = .ok control s' →
          s'.pressed = s.pressed ++ s.keysTaken ∧
          (tracedInstruction? symbols s).isSome = s.tracing ∧
          (tracedDump? symbols s).isSome = s'.tracing ∧
          ((tracedDump? symbols s).isSome = (tracedInstruction? symbols s).isSome ↔
            Even (s.keysTaken.count .toggleTrace))) ∧
        ∀ e s', step symbols s = .error e s' → tracedDump? symbols s = none := by
  refine ⟨?_, fun s hs => ⟨fun control s' hstep => ?_, fun e s' => tracedDump?_of_error⟩⟩
  · obtain hrun | hrun := run_fst symbols fuel m
    · rw [hrun, traced_of_loop symbols fuel h]
    · rw [hrun, traceLines_flush, traced_of_loop symbols fuel h]
  · have hinstruction := isSome_tracedInstruction? hstep
    have hdump := isSome_tracedDump? hstep
    have hswitched := switched_of_step (logs_of_mem_history h hs) hstep
    refine ⟨hswitched.pressed, hinstruction, hdump, ?_⟩
    rw [hinstruction, hdump, hswitched.tracing, Terminal.tracingAfter_eq_self_iff]

/-- A machine that is about to read, with a terminal on which tracing is switched on just before the
key that it reads, and with a tracer that shows registers. -/
def switchedOn : Machine :=
  { ofImage readingImage with
    input := .terminal { keys := [.toggleTrace, .character 'a'] }
    tracer := some { dumpsRegisters := true } }

private theorem logs_switchedOn : switchedOn.Logs true :=
  ⟨_, rfl, rfl, fun _ _ => rfl, fun _ _ => rfl⟩

private theorem fetch_switchedOn : switchedOn.fetch = .ok (.input 0, 2) := by
  have hmemory : switchedOn.memory = .ofImage readingImage := rfl
  exact (fetch_of_image hmemory (Nat.le_refl 4)).trans rfl

private theorem keysTaken_switchedOn : switchedOn.keysTaken = [.toggleTrace, .character 'a'] := by
  rw [keysTaken, startsInput, fetch_switchedOn]
  rfl

private theorem exists_step_switchedOn : ∃ control m', step .empty switchedOn = .ok control m' :=
  exists_step_of_obliging fetch_switchedOn
    ⟨logs_switchedOn.takesLines, rfl, rfl, fun _ _ => ⟨97, rfl⟩⟩ nofun

theorem dumps_follow_switch_switchedOn :
    switchedOn.Logs true ∧ ∃ control m', step .empty switchedOn = .ok control m' ∧
      ¬(tracedDump? .empty switchedOn).isSome = (tracedInstruction? .empty switchedOn).isSome := by
  obtain ⟨control, m', hstep⟩ := exists_step_switchedOn
  obtain ⟨-, hsteps⟩ := dumps_follow_switch .empty switchedOn 1 logs_switchedOn
  have hmem : switchedOn ∈ history .empty 1 switchedOn := by
    rw [history_succ]
    exact List.mem_cons_self
  obtain ⟨hok, -⟩ := hsteps switchedOn hmem
  obtain ⟨-, -, -, hiff⟩ := hok control m' hstep
  rw [keysTaken_switchedOn] at hiff
  exact ⟨logs_switchedOn, control, m', hstep, mt hiff.mp (by decide)⟩

/-- A step may show the registers without having traced its instruction. -/
theorem dump_without_instruction :
    switchedOn.Logs true ∧ ∃ control m', step .empty switchedOn = .ok control m' ∧
      tracedInstruction? .empty switchedOn = none ∧
      tracedDump? .empty switchedOn = some m'.registers.text ∧
      switchedOn.traceLines = [] ∧ m'.traceLines = [m'.registers.text] := by
  obtain ⟨control, m', hstep⟩ := exists_step_switchedOn
  have htracing : m'.tracing = true := by
    rw [(switched_of_step logs_switchedOn hstep).tracing, keysTaken_switchedOn]
    rfl
  have hdump : tracedDump? .empty switchedOn = some m'.registers.text := by
    rw [tracedDump?, dump?, executed?, fetch_switchedOn, hstep, after_of_ok hstep, htracing]
    rfl
  obtain ⟨-, hlines⟩ := traced_of_step .empty logs_switchedOn
  rw [after_of_ok hstep, tracedLines, hdump] at hlines
  exact ⟨logs_switchedOn, control, m', hstep, rfl, hdump, rfl, hlines⟩

end Machine

end WordMachine
