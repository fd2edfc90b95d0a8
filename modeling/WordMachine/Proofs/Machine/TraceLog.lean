import WordMachine.Proofs.Listing.Coverage
import WordMachine.Proofs.Machine.LogLine
import WordMachine.Proofs.Machine.Stores

/-!
# The trace is a faithful log

With tracing on all along, the text of the trace tells what a run does to the outside and to
memory. Read line by line (`LogEntry.ofLine`), it names every instruction that was fetched, the
stores in it make of the memory before the run the memory after it, and the outputs in it are the
bytes that were written, as long as the output takes every byte. The last registers shown are those
after the last step that succeeded. This is the main result, `run_log`.
-/

namespace WordMachine

open Text

/-! ### What an instruction reports -/

namespace Instruction

/-- What the remark of an instruction reports. -/
def reported? (before : RegisterFile) : Instruction → Option LogEntry
  | store address source => some (.stored (before.value address) (before.value source))
  | output source => some (.wrote (before.value source).toUInt8.toNat)
  | _ => none

/-- The report is read off the remark. -/
private theorem map_ofLine_remark (i : Instruction) (core : Core) :
    (i.remark? core).map (fun remark => LogEntry.ofLine remark.toList) =
      i.reported? core.registers := by
  cases i with
  | store address source => exact congrArg some (LogEntry.ofLine_store _ _)
  | output source => exact congrArg some (LogEntry.ofLine_output _)
  | _ => rfl

/-- Stores are reported as they are made. -/
private theorem bind_stored?_reported (i : Instruction) (before : RegisterFile) :
    (i.reported? before).bind LogEntry.stored? = i.stored? before := by
  cases i <;> rfl

/-- Outputs are reported with their byte. -/
private theorem bind_wrote?_reported (i : Instruction) (before : RegisterFile) :
    (i.reported? before).bind LogEntry.wrote? = (i.emitted? before).map UInt8.toNat := by
  cases i <;> rfl

private theorem ne_of_reported {i : Instruction} {before : RegisterFile} {entry : LogEntry}
    (h : i.reported? before = some entry) : entry ≠ .instruction ∧ entry ≠ .registers := by
  cases i with
  | store | output =>
    cases h
    exact ⟨nofun, nofun⟩
  | _ => cases h

end Instruction

namespace Machine

open WordMachine.Action

variable {symbols : SymbolTable} {dumps : Bool} {m m' : Machine} {fuel : Nat}

/-! ### What a step logs -/

/-- What the remark of the instruction that a step fetches reports. -/
def reported? (m : Machine) : Option LogEntry :=
  match m.fetch with
  | .ok (i, _) => i.reported? m.core.registers
  | .error _ => none

private theorem map_ofLine_remark (m : Machine) :
    m.remark?.map (fun remark => LogEntry.ofLine remark.toList) = m.reported? := by
  rw [remark?, reported?]
  cases m.fetch with
  | ok fetched => exact fetched.1.map_ofLine_remark m.core
  | error e => rfl

private theorem ne_of_mem_remark {line : String} (h : m.remark? = some line) :
    LogEntry.ofLine line.toList ≠ .instruction ∧ LogEntry.ofLine line.toList ≠ .registers := by
  have hreported := m.map_ofLine_remark
  rw [h, Option.map_some, reported?] at hreported
  split at hreported
  · exact Instruction.ne_of_reported hreported.symm
  · cases hreported

private theorem ofLine_of_mem_dump {line : String} (h : dump? symbols dumps m = some line) :
    LogEntry.ofLine line.toList = .registers := by
  rw [dump?] at h
  split at h
  · obtain ⟨executed, -, rfl⟩ := Option.map_eq_some_iff.mp h
    exact LogEntry.ofLine_registers executed.2.registers
  · cases h

/-- What a step reports as stored is what it stores, if it comes to that. -/
private theorem bind_stored?_reported (m : Machine) :
    m.reported?.bind LogEntry.stored? = m.stored? := by
  rw [reported?, stored?]
  cases m.fetch with
  | ok fetched => exact fetched.1.bind_stored?_reported m.registers
  | error e => rfl

/-- Of lines of one kind a filter keeps all or none. -/
private theorem filter_eq_ite {lines : List String} {entry : LogEntry}
    (h : ∀ line ∈ lines, LogEntry.ofLine line.toList = entry) (kind : LogEntry) :
    lines.filter (LogEntry.ofLine ·.toList = kind) = if entry = kind then lines else [] := by
  split
  · next heq => exact List.filter_eq_self.mpr fun line hline => by simp [h line hline, heq]
  · next hne => exact List.filter_eq_nil_iff.mpr fun line hline => by simp [h line hline, hne]

section Lines

variable (hnames : symbols.HasWordNames) (htable : symbols.WellFormed)
include hnames htable

private theorem ofLine_of_mem_fetchedLine {line : String} (h : fetchedLine? symbols m = some line) :
    LogEntry.ofLine line.toList = .instruction := by
  rw [fetchedLine?] at h
  split at h
  · rw [← Option.some.inj h]
    exact LogEntry.ofLine_instructionLine hnames htable _ _
  · cases h

/-- The instruction or the registers in the lines of a step. -/
private theorem filter_logLines {kind : LogEntry} (hkind : kind = .instruction ∨ kind = .registers)
    (dumps : Bool) (m : Machine) :
    (logLines symbols dumps m).filter (LogEntry.ofLine ·.toList = kind) =
      (if kind = .instruction then fetchedLine? symbols m else dump? symbols dumps m).toList := by
  have hremark : ∀ line ∈ m.remark?.toList,
      ¬decide (LogEntry.ofLine line.toList = kind) = true := by
    intro line hline
    obtain ⟨hinstruction, hregisters⟩ := ne_of_mem_remark (Option.mem_toList.mp hline)
    obtain rfl | rfl := hkind
    · simpa using hinstruction
    · simpa using hregisters
  rw [logLines_eq, List.filter_append, List.filter_append, List.filter_eq_nil_iff.mpr hremark,
    List.nil_append,
    filter_eq_ite (fun _ h => ofLine_of_mem_fetchedLine hnames htable (Option.mem_toList.mp h)),
    filter_eq_ite fun _ h => ofLine_of_mem_dump (Option.mem_toList.mp h)]
  obtain rfl | rfl := hkind
  · simp
  · simp

/-- All else that is read off the lines of a step is what its remark reports. -/
private theorem filterMap_logLines {α : Type} (view : LogEntry → Option α)
    (hinstruction : view .instruction = none) (hregisters : view .registers = none)
    (dumps : Bool) (m : Machine) :
    ((logLines symbols dumps m).filterMap fun line => view (LogEntry.ofLine line.toList)) =
      (m.reported?.bind view).toList := by
  have hfirst : ∀ line ∈ (fetchedLine? symbols m).toList,
      view (LogEntry.ofLine line.toList) = none := by
    intro line hline
    rw [ofLine_of_mem_fetchedLine hnames htable (Option.mem_toList.mp hline), hinstruction]
  have hlast : ∀ line ∈ (dump? symbols dumps m).toList,
      view (LogEntry.ofLine line.toList) = none := by
    intro line hline
    rw [ofLine_of_mem_dump (Option.mem_toList.mp hline), hregisters]
  rw [logLines_eq, List.filterMap_append, List.filterMap_append,
    List.filterMap_eq_nil_iff.mpr hfirst, List.filterMap_eq_nil_iff.mpr hlast, List.nil_append,
    List.append_nil, ← map_ofLine_remark]
  cases m.remark? with
  | none => rfl
  | some line =>
    rw [Option.toList_some, Option.map_some, Option.bind_some, List.filterMap_cons,
      List.filterMap_nil]
    cases view (LogEntry.ofLine line.toList) <;> rfl

end Lines

/-! ### Outputs that take every byte -/

private theorem takesAll_perform (h : m.output.TakesAll) (pc next : Word) (effect : Effect) :
    ((perform pc next effect).after m).output.TakesAll := by
  cases effect with
  | fault | compute => exact h
  | emit b =>
    have hoffered : ((perform pc next (.emit b)).after m).output = m.output.offer.2 := by
      rw [after, perform, bind_apply, writeByte_apply]
      cases m.output.takes m.output.offered <;> rfl
    rw [hoffered]
    exact fun n hn => h n (Nat.le_of_succ_le hn)
  | receive target =>
    have hkeeps : (perform pc next (.receive target)).Keeps
        (.ker fun m => (m.output.takes, m.output.offered)) := by
      refine .bind (fun m => ?_) fun _ => .bind (fun m => ?_) fun _ _ => rfl
      · rw [after_flush]
        rfl
      · rw [after, readByte_apply]
        cases m.input.request.answer <;> rfl
    obtain ⟨htakes, hoffered⟩ := Prod.mk.inj (hkeeps m)
    rw [Output.TakesAll, ← htakes, ← hoffered]
    exact h

/-- An output that takes every byte goes on to do so. -/
private theorem takesAll_of_step (symbols : SymbolTable) (h : m.TakesLines)
    (houtput : m.output.TakesAll) :
    ((step symbols).after m).output.TakesAll := by
  obtain ⟨e, -, hstep⟩ | ⟨i, length, m₁, -, hbefore,
    ⟨e, failed, hperform, hstep, -⟩ | ⟨control, done, m', hperform, hstep, hafter, -⟩⟩ :=
    step_cases_of_takesLines symbols h
  · rw [after_of_error hstep]
    exact houtput
  · rw [hbefore.output] at houtput
    rw [after_of_error hstep, ← after_of_error hperform]
    exact takesAll_perform houtput _ _ _
  · rw [hbefore.output] at houtput
    rw [proceeded_eq] at hafter
    rw [after_of_ok hstep, ← hafter.output, ← after_of_ok hperform]
    exact takesAll_perform houtput _ _ _

/-- An output that takes every byte fails at no instruction that writes one. -/
private theorem emitted?_eq_none_of_perform_error {i : Instruction} {core : Core} {pc next : Word}
    {e : MachineError} (houtput : m.output.TakesAll)
    (h : perform pc next (i.effect core pc next) m = .error e m') :
    i.emitted? core.registers = none := by
  cases i with
  | output source =>
    rw [Instruction.effect, perform, bind_apply, writeByte_apply,
      if_pos (houtput _ (Nat.le_refl _))] at h
    cases h
  | _ => rfl

/-- Then a step writes the byte that it reports. -/
private theorem bind_wrote?_reported (symbols : SymbolTable) (h : m.TakesLines)
    (houtput : m.output.TakesAll) :
    m.reported?.bind LogEntry.wrote? = (emitted? symbols m).map UInt8.toNat := by
  obtain ⟨e, hfetch, -⟩ | ⟨i, length, m₁, hfetch, hbefore, hcases⟩ :=
    step_cases_of_takesLines symbols h
  · rw [reported?, emitted?, executed?, hfetch]
    rfl
  · have hreported : m.reported?.bind LogEntry.wrote? =
        (i.emitted? m.core.registers).map UInt8.toNat := by
      rw [reported?, hfetch]
      exact i.bind_wrote?_reported m.core.registers
    have hemitted : emitted? symbols m = i.emitted? m.core.registers := by
      obtain ⟨e, failed, hperform, hstep, -⟩ | ⟨control, done, m', -, hstep, -⟩ := hcases
      · rw [hbefore.output] at houtput
        rw [emitted?_eq_none_of_perform_error houtput hperform]
        simp only [emitted?, executed?, hfetch, hstep, Option.bind_none]
      · simp only [emitted?, executed?, hfetch, hstep, Option.bind_some]
        rfl
    rw [hreported, hemitted]

/-- The output takes every byte all along. -/
private theorem takesAll_of_mem_history {s : Machine} (h : m.TakesLines)
    (houtput : m.output.TakesAll)
    (hs : s ∈ history symbols fuel m) : s.output.TakesAll := by
  refine history_induction (motive := fun m steps _ =>
    m.TakesLines → m.output.TakesAll → ∀ s ∈ steps, s.output.TakesAll) ?_ ?_ fuel m h houtput s hs
  · exact fun _ _ _ => nofun
  · intro m later _ ih h houtput s hs
    obtain rfl | hs := List.mem_cons.mp hs
    · exact houtput
    · exact ih (traffic_of_step symbols h).2 (takesAll_of_step symbols h houtput) s hs

/-! ### Logs of runs -/

/-- The lines of a log **tell** what happened in the steps from one machine to a later one. -/
structure Tells (symbols : SymbolTable) (dumps : Bool) (first last : Machine)
    (steps : List Machine) (log : List (List Char)) : Prop where
  /-- One line names each instruction that was fetched, in order. -/
  instructions : log.filter (LogEntry.ofLine · = .instruction) =
    (steps.filterMap (fetchedLine? symbols)).map String.toList
  /-- The stores make of the first memory the last one. What is stored outside of memory does not
  count. -/
  memory : last.memory =
    first.memory.replay (log.filterMap fun line => (LogEntry.ofLine line).stored?)
  /-- The outputs are the bytes that were written, in order. -/
  written : ∃ bytes, last.written = first.written ++ bytes ∧
    (log.filterMap fun line => (LogEntry.ofLine line).wrote?) = bytes.map UInt8.toNat
  /-- One line shows the registers after each step that succeeded, in order, if that was asked
  for. -/
  registers : log.filter (LogEntry.ofLine · = .registers) =
    if dumps then (steps.filterMap (executed? symbols)).map (·.2.registers.text.toList) else []

/-- The flush at the end of a run leaves all of this alone. -/
private theorem Tells.flush {first last : Machine} {steps : List Machine} {log : List (List Char)}
    (h : Tells symbols dumps first last steps log) :
    Tells symbols dumps first (flush.after last) steps log where
  instructions := h.instructions
  memory := by
    rw [after_flush]
    exact h.memory
  written := by
    rw [(traffic_flush last).written, List.append_nil]
    exact h.written
  registers := h.registers

section Lines

variable (hnames : symbols.HasWordNames) (htable : symbols.WellFormed)
include hnames htable

/-- What is read off a log, but for instructions and registers, is what the steps report. -/
private theorem filterMap_log {α : Type} (view : LogEntry → Option α)
    (hinstruction : view .instruction = none) (hregisters : view .registers = none)
    (dumps : Bool) (steps : List Machine) :
    (((steps.flatMap (logLines symbols dumps)).map String.toList).filterMap fun line =>
        view (LogEntry.ofLine line)) =
      steps.filterMap fun s => s.reported?.bind view := by
  rw [List.filterMap_map, List.filterMap_flatMap, List.filterMap_eq_flatMap_toList]
  exact List.flatMap_congr fun s _ =>
    filterMap_logLines hnames htable view hinstruction hregisters dumps s

private theorem filter_log {kind : LogEntry} (hkind : kind = .instruction ∨ kind = .registers)
    (dumps : Bool) (steps : List Machine) :
    ((steps.flatMap (logLines symbols dumps)).map String.toList).filter
        (LogEntry.ofLine · = kind) =
      (steps.filterMap fun s => if kind = .instruction then fetchedLine? symbols s
        else dump? symbols dumps s).map String.toList := by
  rw [List.filter_map, List.filter_flatMap, List.filterMap_eq_flatMap_toList]
  exact congrArg _ (List.flatMap_congr fun s _ => filter_logLines hnames htable hkind dumps s)

end Lines

/-- The steps of a run with tracing on all along are told by the lines that they log. -/
private theorem tells_of_loop (hnames : symbols.HasWordNames) (htable : symbols.WellFormed)
    (hlogs : m.Logs dumps) (houtput : m.output.TakesAll) :
    Tells symbols dumps m (loop symbols fuel m).1 (history symbols fuel m)
      (((history symbols fuel m).flatMap (logLines symbols dumps)).map String.toList) where
  instructions := filter_log hnames htable (.inl rfl) dumps _
  memory := by
    have hmemory := memory_of_loop symbols fuel m fun s hs =>
      memory_of_step symbols (takesLines_of_mem_history hlogs.takesLines hs)
    have hstored : (fun s : Machine => s.reported?.bind LogEntry.stored?) = stored? :=
      funext bind_stored?_reported
    rw [hmemory, filterMap_log hnames htable _ rfl rfl, hstored]
  written := by
    refine ⟨_, (traffic_of_loop symbols fuel hlogs.takesLines).written, ?_⟩
    rw [filterMap_log hnames htable _ rfl rfl, List.map_filterMap]
    refine List.filterMap_congr fun s hs => ?_
    -- Along the run both the trace and the output go on to take everything.
    have hlines := takesLines_of_mem_history hlogs.takesLines hs
    have htakes := takesAll_of_mem_history hlogs.takesLines houtput hs
    exact bind_wrote?_reported symbols hlines htakes
  registers := by
    rw [filter_log hnames htable (.inr rfl)]
    cases dumps with
    | false => simp [dump?]
    | true => simp [dump?, List.map_filterMap, Function.comp_def]

/-- What a loop logs is what the run logs. -/
private theorem log_of_run (symbols : SymbolTable) (fuel : Nat) (h : m.Logs dumps)
    (hon : ∀ s ∈ history symbols fuel m, s.tracing = true)
    (hlast : (run symbols fuel m).1.tracing = true) :
    (run symbols fuel m).1.traceLines =
      m.traceLines ++ (history symbols fuel m).flatMap (logLines symbols dumps) := by
  obtain hrun | hrun := run_fst symbols fuel m
  · rw [hrun] at hlast ⊢
    exact log_of_loop symbols fuel h hon hlast
  · rw [hrun, after_flush] at hlast
    rw [hrun, traceLines_flush]
    exact log_of_loop symbols fuel h hon hlast

/-! ### The main result -/

/-- **The trace is a faithful log.** Take a symbol table that was read from a text, a machine with a
tracer and an output that take all they are given, and a run of any length with tracing on all
along.

The run logs lines that hold no line feeds. The text of the trace grows by these lines, each with a
line feed behind it, so the lines of this text are those that were logged. They tell what happened:
they name the instructions that were fetched, the stores in them make of the memory before the run
the memory after it, the outputs in them are the bytes that were written, and if registers were
asked for, they are shown as they were after each step that succeeded. -/
theorem run_log {text : List Char} (hsymbols : SymbolTable.ofText text = .ok symbols)
    (hlogs : m.Logs dumps) (houtput : m.output.TakesAll)
    (hon : ∀ s ∈ history symbols fuel m, s.tracing = true)
    (hlast : (run symbols fuel m).1.tracing = true) :
    ∃ (logged : List String) (grown : List Char),
      (run symbols fuel m).1.traceLines = m.traceLines ++ logged ∧
      (∀ line ∈ logged, IsOneLine line) ∧
      (run symbols fuel m).1.traceText.toList = m.traceText.toList ++ grown ∧
      grown = (lines grown).flatMap (· ++ ['\n']) ∧
      lines grown = logged.map String.toList ∧
      Tells symbols dumps m (run symbols fuel m).1 (history symbols fuel m) (lines grown) := by
  have hnames := SymbolTable.hasWordNames_of_ofText hsymbols
  obtain ⟨htable, -⟩ := SymbolTable.says_of_ofText hsymbols
  let logged := (history symbols fuel m).flatMap (logLines symbols dumps)
  have hone : ∀ line ∈ logged, IsOneLine line := by
    intro line hline
    obtain ⟨s, -, hline⟩ := List.mem_flatMap.mp hline
    exact isOneLine_of_mem_logLines hnames htable hline
  have hread : lines ((logged.map String.toList).flatMap (· ++ ['\n'])) =
      logged.map String.toList := lines_flatMap_feed (List.forall_mem_map.mpr hone)
  have hlines : (run symbols fuel m).1.traceLines = m.traceLines ++ logged :=
    log_of_run symbols fuel hlogs hon hlast
  have htells : Tells symbols dumps m (run symbols fuel m).1 (history symbols fuel m)
      (logged.map String.toList) := by
    have hloop : Tells symbols dumps m (loop symbols fuel m).1 (history symbols fuel m)
        (logged.map String.toList) := tells_of_loop hnames htable hlogs houtput
    obtain hrun | hrun := run_fst symbols fuel m
    · rw [hrun]
      exact hloop
    · rw [hrun]
      exact hloop.flush
  refine ⟨logged, (logged.map String.toList).flatMap (· ++ ['\n']), hlines, hone, ?_, ?_, hread, ?_⟩
  · rw [traceText, hlines, List.map_append, String.join_append, String.toList_append]
    rw [toList_join_feed, toList_join_feed, traceText, toList_join_feed]
  · rw [hread]
  · rw [hread]
    exact htells

/-- A program that writes a byte and stores a word behind itself. -/
def loggedImage : Image := ⟨#[19, 65, 16, 10, 5, 0], by decide⟩

/-- A machine that logs everything, about to write. -/
def logging : Machine :=
  { ofImage loggedImage with tracer := some { dumpsRegisters := true }, tracing := true }

/-- The machine when it has written. -/
def logged : Machine :=
  { logging with
    pc := 2
    output := { offered := 1 }
    tracer := some { dumpsRegisters := true, offered := 3, polls := 3 }
    journal := #[.traced (instructionLine .empty 0 (.output (.literal 65))),
      .traced "=== out: 'A' (65) ===", .wrote 65, .traced RegisterFile.zero.text] }

private theorem fetch_logging : logging.fetch = .ok (.output (.literal 65), 2) := by
  have hmemory : logging.memory = .ofImage loggedImage := rfl
  exact (fetch_of_image hmemory (by decide : 4 ≤ 6)).trans rfl

private theorem fetch_logged : logged.fetch = .ok (.store (.literal 10) (.literal 5), 3) := by
  have hmemory : logged.memory = .ofImage loggedImage := rfl
  exact (fetch_of_image hmemory (Nat.le_refl 6)).trans rfl

private theorem step_logging : step .empty logging = .ok ⟨none, 2⟩ logged := by
  have hremark : (Instruction.output (.literal 65)).remark? logging.core =
      some "=== out: 'A' (65) ===" := by decide
  rw [step_apply, fetch_logging]
  simp only [hremark]
  rfl

private theorem exists_step_logged : ∃ last, step .empty logged = .ok ⟨none, 5⟩ last ∧
    last.haltAt = none ∧ last.tracing = true ∧ last.written = [65] := by
  have hholds : Memory.Holds (logged.core.value (.literal 10)) := (by decide : Memory.Holds 10)
  rw [step_apply, fetch_logged]
  simp only [Instruction.effect, Memory.write, if_pos hholds]
  exact ⟨_, rfl, rfl, rfl, rfl⟩

theorem run_log_logging :
    SymbolTable.ofText [] = .ok .empty ∧ logging.Logs true ∧ logging.output.TakesAll ∧
      (∀ s ∈ history .empty 2 logging, s.tracing = true) ∧
      (run .empty 2 logging).1.tracing = true ∧
      ∃ grown, (run .empty 2 logging).1.traceText.toList = logging.traceText.toList ++ grown ∧
        ((lines grown).filterMap fun line => (LogEntry.ofLine line).wrote?) = [65] ∧
        (lines grown).filter (LogEntry.ofLine · = .instruction) =
          [(instructionLine .empty 0 (.output (.literal 65))).toList,
            (instructionLine .empty 2 (.store (.literal 10) (.literal 5))).toList] := by
  obtain ⟨last, hlogged, hhaltAt, hlastOn, hwritten⟩ := exists_step_logged
  have hlogs : logging.Logs true := ⟨_, rfl, rfl, fun _ _ => rfl, fun _ _ => rfl⟩
  have houtput : logging.output.TakesAll := fun _ _ => rfl
  have hgoesOn : logged.haltReason? logging.pc ⟨none, 2⟩ = none := rfl
  have hgoesOn' : last.haltReason? logged.pc ⟨none, 5⟩ = none :=
    haltReason?_of_haltAt_none hhaltAt _ _
  have hloop : loop .empty 2 logging = (last, none) := by
    rw [loop_succ_of_none step_logging hgoesOn 1, loop_succ_of_none hlogged hgoesOn' 0]
    rfl
  have hrun : run .empty 2 logging = (last, none) := by
    rw [run, hloop]
  have hhistory : history .empty 2 logging = [logging, logged] := by
    rw [history_succ_of_none step_logging hgoesOn 1, history_succ_of_none hlogged hgoesOn' 0]
    rfl
  have hon : ∀ s ∈ history .empty 2 logging, s.tracing = true := by
    rw [hhistory]
    exact List.forall_mem_cons.mpr ⟨rfl, List.forall_mem_singleton.mpr rfl⟩
  have hlast : (run .empty 2 logging).1.tracing = true := by
    rw [hrun]
    exact hlastOn
  have hsymbols : SymbolTable.ofText [] = .ok .empty := rfl
  obtain ⟨_, grown, -, -, hgrown, -, -, htells⟩ := run_log hsymbols hlogs houtput hon hlast
  refine ⟨hsymbols, hlogs, houtput, hon, hlast, grown, hgrown, ?_, ?_⟩
  · obtain ⟨bytes, hbytes, hwrote⟩ := htells.written
    rw [hrun, hwritten] at hbytes
    have hbytes : [65] = bytes := hbytes
    rw [hwrote, ← hbytes]
    rfl
  · have hfirst : fetchedLine? .empty logging =
        some (instructionLine .empty 0 (.output (.literal 65))) := by
      rw [fetchedLine?, fetch_logging]
      rfl
    have hsecond : fetchedLine? .empty logged =
        some (instructionLine .empty 2 (.store (.literal 10) (.literal 5))) := by
      rw [fetchedLine?, fetch_logged]
      rfl
    rw [htells.instructions, hhistory, List.filterMap_cons_some hfirst,
      List.filterMap_cons_some hsecond]
    rfl

end Machine

end WordMachine
