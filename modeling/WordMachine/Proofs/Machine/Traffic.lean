import WordMachine.Proofs.Machine.Execution
import WordMachine.Proofs.Machine.History

/-!
# What passes between a machine and its devices

All that a run writes, reads and flushes comes from single instructions: each `out` that succeeds
writes one byte, each `in` that succeeds takes one byte off the input, and each `in`, whatever
becomes of it, flushes the output first. So a machine never waits for input with output that does
not show yet (`FlushedFirst`).

The **traffic** from one machine to a later one is what passes in between. It is put together along
runs (`Traffic.trans`), and for a single step it is read off the instruction (`traffic_of_step`), as
long as tracing does not get in the way. The main result, `run_traffic`, accounts for a run with its
flush at the end.
-/

namespace WordMachine

/-- The byte that an instruction writes, if it is carried out. -/
def Instruction.emitted? (before : RegisterFile) : Instruction → Option UInt8
  | output source => some (before.value source).toUInt8
  | _ => none

/-- The word that an instruction has read into a register, if it was carried out. -/
def Instruction.delivered? (after : RegisterFile) : Instruction → Option Word
  | input target => some (after.get target.val)
  | _ => none

/-- Whether an instruction asks for input. -/
def Instruction.asks : Instruction → Bool
  | input _ => true
  | _ => false

/-- The effect deals with no device. -/
def Effect.IsSilent : Effect → Prop
  | fault _ | compute _ _ => True
  | emit _ | receive _ => False

/-- All instructions but `out` and `in` do without devices. -/
theorem Instruction.isSilent_effect {i : Instruction} {core : Core} {pc next : Word}
    (houtput : ∀ source, i ≠ .output source) (hinput : ∀ target, i ≠ .input target) :
    (i.effect core pc next).IsSilent := by
  cases i with
  | output source => exact houtput source rfl
  | input target => exact hinput target rfl
  | pop | binary | load | store | ret =>
    simp only [effect]
    split <;> trivial
  | _ => trivial

namespace Machine

open WordMachine.Action

variable {symbols : SymbolTable} {m m' m'' : Machine}

/-! ### Flushes before reads -/

/-- Since the last byte that was written the output has been flushed. -/
def Settled (events : List Event) : Prop :=
  ∃ before after, events = before ++ .flushed true :: after ∧ ∀ b, .wrote b ∉ after

/-- Whenever a byte of input is requested, the output has been flushed since the last byte that was
written. -/
def FlushedFirst (events : List Event) : Prop :=
  ∀ before after, events = before ++ .requested :: after → Settled before

namespace FlushedFirst

variable {events later : List Event}

private theorem of_notMem (h : .requested ∉ events) : FlushedFirst events := by
  rintro before after rfl
  exact absurd (List.mem_append_right before (.head after)) h

/-- A request right behind a flush that has succeeded. -/
private theorem flushed_requested (h : .requested ∉ events) :
    FlushedFirst (.flushed true :: .requested :: events) := by
  intro before after heq
  obtain ⟨-, ⟨⟩⟩ | ⟨between, rfl, htail⟩ := List.append_eq_cons_iff.mp heq.symm
  obtain ⟨rfl, -⟩ | ⟨rest, -, hrest⟩ := List.append_eq_cons_iff.mp htail.symm
  · exact ⟨[], [], rfl, nofun⟩
  · rw [hrest] at h
    exact absurd (List.mem_append_right rest (.head after)) h

theorem append (h : FlushedFirst events) (h' : FlushedFirst later) :
    FlushedFirst (events ++ later) := by
  intro before after heq
  obtain ⟨between, rfl, hlater⟩ | ⟨between, hevents, hafter⟩ := List.append_eq_append_iff.mp heq
  · -- The request is among the later events, and so is the flush before it.
    obtain ⟨settled, rest, rfl, hrest⟩ := h' between after hlater
    exact ⟨events ++ settled, rest, (List.append_assoc ..).symm, hrest⟩
  · cases between with
    | nil =>
      rw [List.append_nil] at hevents
      obtain ⟨settled, rest, hsettled, hrest⟩ := h' [] after hafter.symm
      exact absurd hsettled (by simp)
    | cons event between =>
      obtain ⟨rfl, -⟩ := List.cons.inj hafter
      exact h before between hevents

end FlushedFirst

/-! ### Traffic -/

/-- What passes between a machine and its devices on the way from `m` to `m'`: bytes that are
written, bytes of input that are delivered as words, and flushes that are tried. -/
structure Traffic (m m' : Machine) (emitted : List UInt8) (delivered : List Word)
    (flushes : Nat) : Prop where
  /-- Nothing is written but what was emitted, in this order. -/
  written : m'.written = m.written ++ emitted
  /-- Nothing is taken off the input but what was delivered, in this order. -/
  unread : m.input.unread.map UInt8.toUInt16 = delivered ++ m'.input.unread.map UInt8.toUInt16
  flushCount : m'.flushCount = m.flushCount + flushes
  /-- No input was requested but with all output flushed. -/
  flushedFirst : ∃ events, m'.dealings = m.dealings ++ events ∧ FlushedFirst events

namespace Traffic

variable {emitted emitted' : List UInt8} {delivered delivered' : List Word}
  {flushes flushes' : Nat}

theorem refl (m : Machine) : Traffic m m [] [] 0 :=
  ⟨(List.append_nil _).symm, rfl, rfl, [], (List.append_nil _).symm, .of_notMem nofun⟩

theorem trans (h : Traffic m m' emitted delivered flushes)
    (h' : Traffic m' m'' emitted' delivered' flushes') :
    Traffic m m'' (emitted ++ emitted') (delivered ++ delivered') (flushes + flushes') := by
  obtain ⟨events, hevents, hfirst⟩ := h.flushedFirst
  obtain ⟨events', hevents', hfirst'⟩ := h'.flushedFirst
  refine ⟨?_, ?_, ?_, events ++ events', ?_, hfirst.append hfirst'⟩
  · rw [h'.written, h.written, List.append_assoc]
  · rw [h.unread, h'.unread, List.append_assoc]
  · rw [h'.flushCount, h.flushCount, Nat.add_assoc]
  · rw [hevents', hevents, List.append_assoc]

/-- Traffic is a matter of the events and of what is taken off the input. -/
private theorem of_events (events : List Event) (hevents : m'.dealings = m.dealings ++ events)
    (hfirst : FlushedFirst events)
    (hunread : m.input.unread.map UInt8.toUInt16 =
      delivered ++ m'.input.unread.map UInt8.toUInt16) :
    Traffic m m' (events.filterMap Event.written?) delivered (events.countP Event.isFlush) where
  written := by
    rw [written_eq_filterMap_dealings, written_eq_filterMap_dealings, hevents,
      List.filterMap_append]
  unread := hunread
  flushCount := by
    rw [flushCount_eq_countP_dealings, flushCount_eq_countP_dealings, hevents, List.countP_append]
  flushedFirst := ⟨events, hevents, hfirst⟩

/-- Traffic leaves out of account what machines do without their devices. -/
private theorem congr {before after : Machine} (h : Traffic before after emitted delivered flushes)
    (hbefore : m.AgreeButTrace before) (hdealings : after.dealings = m'.dealings)
    (hinput : after.input = m'.input) : Traffic m m' emitted delivered flushes where
  written := by
    rw [written_eq_filterMap_dealings, ← hdealings, ← written_eq_filterMap_dealings, h.written,
      hbefore.written_eq]
  unread := by rw [hbefore.input, ← hinput, h.unread]
  flushCount := by
    rw [flushCount_eq_countP_dealings, ← hdealings, ← flushCount_eq_countP_dealings, h.flushCount,
      hbefore.flushCount_eq]
  flushedFirst := by
    rw [hbefore.dealings, ← hdealings]
    exact h.flushedFirst

end Traffic

/-! ### Traffic with devices -/

theorem dealings_push (m : Machine) {event : Event} (h : event.line? = none) :
    { m with journal := m.journal.push event }.dealings = m.dealings ++ [event] := by
  simp [dealings, h]

/-- A flush, whether it succeeds or not. -/
private theorem dealings_flush (m : Machine) :
    (flush.after m).dealings =
      m.dealings ++ [.flushed (m.output.flushes m.output.flushed)] := by
  rw [after_flush]
  exact dealings_push _ rfl

theorem traffic_flush (m : Machine) : Traffic m (flush.after m) [] [] 1 := by
  refine .of_events [_] (dealings_flush m) (.of_notMem (by simp)) ?_
  rw [after_flush]
  rfl

theorem dealings_requested (m : Machine) :
    m.requested.dealings =
      m.dealings ++ .requested :: m.input.request.pressed.map Event.pressed := by
  simp [requested, dealings, Event.line?, List.filter_map, Function.comp_def]

section Read

variable {flushed : Machine} {pc : Word}

theorem flush_eq_ok (h : flush m = .ok () flushed) :
    flushed.input = m.input ∧ flushed.dealings = m.dealings ++ [.flushed true] := by
  rw [flush_apply] at h
  split at h <;> cases h
  exact ⟨rfl, dealings_push { m with output := _ } rfl⟩

/-- A request right behind a flush that has succeeded. It takes the byte off the input that it
gives. -/
private theorem traffic_requested (h : flush m = .ok () flushed) :
    Traffic m flushed.requested []
      (flushed.input.request.answer.byte?.toList.map UInt8.toUInt16) 1 := by
  obtain ⟨hinput, hdealings⟩ := flush_eq_ok h
  have hevents := dealings_requested flushed
  rw [hdealings, List.append_assoc] at hevents
  have hunread : m.input.unread.map UInt8.toUInt16 =
      flushed.input.request.answer.byte?.toList.map UInt8.toUInt16 ++
        flushed.input.request.rest.unread.map UInt8.toUInt16 := by
    rw [← List.map_append, ← Input.unread_request, hinput]
  have htraffic := Traffic.of_events _ hevents (.flushed_requested (by simp)) hunread
  simpa [List.filterMap_cons, Event.written?, List.countP_cons, List.countP_map, Event.isFlush,
    Function.comp_def] using htraffic

private theorem traffic_readByte_ok {b : UInt8} (hflush : flush m = .ok () flushed)
    (h : readByte pc flushed = .ok b m') : Traffic m m' [] [b.toUInt16] 1 := by
  have hrequested := traffic_requested hflush
  rw [readByte_apply] at h
  split at h <;> cases h
  next hanswer =>
    rw [hanswer] at hrequested
    have hevents := dealings_push flushed.requested (rfl : (Event.received b).line? = none)
    have hreceived : Traffic flushed.requested _ [] [] 0 :=
      .of_events [.received b] hevents (.of_notMem (by simp)) rfl
    exact hrequested.trans hreceived

private theorem traffic_readByte_error {e : MachineError} (hflush : flush m = .ok () flushed)
    (h : readByte pc flushed = .error e m') : Traffic m m' [] [] 1 := by
  have hrequested := traffic_requested hflush
  rw [readByte_apply] at h
  split at h <;> cases h <;> next hanswer => rwa [hanswer] at hrequested

end Read

/-! ### Traffic of instructions -/

section Perform

variable {i : Instruction} {pc next : Word} {effect : Effect} {target : Register} {b : UInt8}
  {control : Control} {e : MachineError}

private theorem traffic_of_isSilent (h : effect.IsSilent) :
    Traffic m ((perform pc next effect).after m) [] [] 0 := by
  cases effect with
  | fault e => exact .refl m
  | compute core control => exact .congr (.refl m) (.refl m) rfl rfl
  | emit b => exact h.elim
  | receive target => exact h.elim

/-- A byte that can be written is. -/
private theorem traffic_emit_ok (h : perform pc next (.emit b) m = .ok control m') :
    Traffic m m' [b] [] 0 := by
  obtain ⟨_, _, hwrite, h⟩ := bind_eq_ok_iff.mp h
  cases h
  rw [writeByte_apply] at hwrite
  split at hwrite <;> cases hwrite
  exact .of_events [.wrote b] (dealings_push { m with output := _ } rfl) (.of_notMem (by simp)) rfl

/-- Otherwise nothing passes at all. -/
private theorem traffic_emit_error (h : perform pc next (.emit b) m = .error e m') :
    Traffic m m' [] [] 0 := by
  obtain hwrite | ⟨_, _, -, ⟨⟩⟩ := bind_eq_error_iff.mp h
  rw [writeByte_apply] at hwrite
  split at hwrite <;> cases hwrite
  exact .congr (.refl m) (.refl m) rfl rfl

/-- A byte that is read is put into the register. -/
private theorem traffic_receive_ok (h : perform pc next (.receive target) m = .ok control m') :
    Traffic m m' [] [m'.registers.get target.val] 1 := by
  obtain ⟨_, _, hflush, h⟩ := bind_eq_ok_iff.mp h
  obtain ⟨b, read, hread, h⟩ := bind_eq_ok_iff.mp h
  cases h
  dsimp only
  rw [RegisterFile.get_set, if_pos ⟨rfl, target.isLt⟩]
  exact (traffic_readByte_ok hflush hread).congr (.refl m) rfl rfl

private theorem traffic_receive_error (h : perform pc next (.receive target) m = .error e m') :
    Traffic m m' [] [] 1 := by
  obtain hflush | ⟨_, _, hflush, h⟩ := bind_eq_error_iff.mp h
  · exact after_of_error hflush ▸ traffic_flush m
  · obtain hread | ⟨_, _, -, ⟨⟩⟩ := bind_eq_error_iff.mp h
    exact traffic_readByte_error hflush hread

/-- What passes when an instruction is carried out. -/
private theorem traffic_perform_ok
    (h : perform pc next (i.effect m.core pc next) m = .ok control m') :
    Traffic m m' (i.emitted? m.registers).toList (i.delivered? m'.registers).toList
      (if i.asks then 1 else 0) := by
  cases i with
  | output source => exact traffic_emit_ok h
  | input target => exact traffic_receive_ok h
  | _ =>
    rw [← after_of_ok h]
    exact traffic_of_isSilent (Instruction.isSilent_effect nofun nofun)

/-- What passes when an instruction is not carried out. -/
private theorem traffic_perform_error
    (h : perform pc next (i.effect m.core pc next) m = .error e m') :
    Traffic m m' [] [] (if i.asks then 1 else 0) := by
  cases i with
  | output source => exact traffic_emit_error h
  | input target => exact traffic_receive_error h
  | _ =>
    rw [← after_of_error h]
    exact traffic_of_isSilent (Instruction.isSilent_effect nofun nofun)

end Perform

/-! ### Traffic of steps -/

/-- The instruction that a step carries out, and the machine after it, if the step succeeds. -/
def executed? (symbols : SymbolTable) (m : Machine) : Option (Instruction × Machine) :=
  match m.fetch, step symbols m with
  | .ok (i, _), .ok _ m' => some (i, m')
  | _, _ => none

/-- The byte that a step writes: the low byte of the operand of an `out` that succeeds. -/
def emitted? (symbols : SymbolTable) (m : Machine) : Option UInt8 :=
  (executed? symbols m).bind fun (i, _) => i.emitted? m.registers

/-- The word that a step takes off the input: what an `in` that succeeds has left in its
register. -/
def delivered? (symbols : SymbolTable) (m : Machine) : Option Word :=
  (executed? symbols m).bind fun (i, m') => i.delivered? m'.registers

/-- Whether a step starts an `in`. -/
def startsInput (m : Machine) : Bool :=
  match m.fetch with
  | .ok (i, _) => i.asks
  | .error _ => false

/-- What passes in a step is what its instruction passes. -/
theorem traffic_of_step (symbols : SymbolTable) (h : m.TakesLines) :
    Traffic m ((step symbols).after m) (emitted? symbols m).toList (delivered? symbols m).toList
        (if m.startsInput then 1 else 0) ∧
      ((step symbols).after m).TakesLines := by
  obtain ⟨e, hfetch, hstep⟩ | ⟨i, length, m₁, hfetch, hbefore,
    ⟨e, failed, hperform, hstep, hlines⟩ | ⟨control, done, m', hperform, hstep, hafter, hlines⟩⟩ :=
    step_cases_of_takesLines symbols h
  · rw [after_of_error hstep]
    simp only [emitted?, delivered?, executed?, startsInput, hfetch]
    exact ⟨.refl m, h⟩
  · rw [after_of_error hstep]
    simp only [emitted?, delivered?, executed?, startsInput, hfetch, hstep]
    rw [hbefore.core_eq] at hperform
    exact ⟨(traffic_perform_error hperform).congr hbefore rfl rfl, hlines⟩
  · rw [after_of_ok hstep]
    simp only [emitted?, delivered?, executed?, startsInput, hfetch, hstep, Option.bind_some]
    rw [hbefore.core_eq] at hperform
    rw [proceeded_eq] at hafter
    rw [hbefore.registers, ← hafter.registers]
    exact ⟨(traffic_perform_ok hperform).congr hbefore hafter.dealings hafter.input, hlines⟩

/-! ### Traffic of runs -/

/-- What passes in the steps of a run is what they pass one after another. -/
theorem traffic_of_loop (symbols : SymbolTable) (fuel : Nat) (h : m.TakesLines) :
    Traffic m (loop symbols fuel m).1 ((history symbols fuel m).filterMap (emitted? symbols))
      ((history symbols fuel m).filterMap (delivered? symbols))
      ((history symbols fuel m).countP startsInput) := by
  refine history_induction (motive := fun m steps last => m.TakesLines →
    Traffic m last (steps.filterMap (emitted? symbols)) (steps.filterMap (delivered? symbols))
      (steps.countP startsInput)) ?_ ?_ fuel m h
  · exact fun m _ => .refl m
  · intro m later last ih h
    obtain ⟨hfirst, hlines⟩ := traffic_of_step symbols h
    have hcons {α : Type} (f : Machine → Option α) :
        (m :: later).filterMap f = (f m).toList ++ later.filterMap f := by
      simp only [List.filterMap_eq_flatMap_toList, List.flatMap_cons]
    rw [hcons, hcons, List.countP_cons, Nat.add_comm]
    exact hfirst.trans (ih hlines)

/-- The tracer takes every line all along. -/
theorem takesLines_of_mem_history {fuel : Nat} {s : Machine} (h : m.TakesLines)
    (hs : s ∈ history symbols fuel m) : s.TakesLines := by
  refine history_induction (motive := fun m steps _ =>
    m.TakesLines → ∀ s ∈ steps, s.TakesLines) ?_ ?_ fuel m h s hs
  · exact fun _ _ => nofun
  · intro m later _ ih h s hs
    obtain rfl | hs := List.mem_cons.mp hs
    · exact h
    · exact ih (traffic_of_step symbols h).2 s hs

/-- An `in` whose flush fails does not come to the point of asking for input. -/
private theorem step_of_flush_refused {target : Register} {length : Nat} (symbols : SymbolTable)
    (h : m.TakesLines) (hfetch : m.fetch = .ok (.input target, length))
    (hrefused : m.output.flushes m.output.flushed = false) :
    ∃ failed, step symbols m = .error (.device .flushFailed) failed ∧ failed.input = m.input := by
  have hperform (m₁ : Machine) (hbefore : m.AgreeButTrace m₁) (next : Word) :
      perform m.pc next (.receive target) m₁ =
        .error (.device .flushFailed) (flush.after m₁) := by
    rw [hbefore.output] at hrefused
    rw [perform, bind_apply, after_flush, flush_apply, hrefused]
    rfl
  obtain ⟨e, hfetch', -⟩ | ⟨i, n, m₁, hfetch', hbefore, hcases⟩ :=
    step_cases_of_takesLines symbols h
  · cases hfetch.symm.trans hfetch'
  · cases hfetch.symm.trans hfetch'
    obtain ⟨e, failed, hfails, hstep, -⟩ | ⟨control, done, m', hdone, -⟩ := hcases
    · cases (hperform m₁ hbefore _).symm.trans hfails
      refine ⟨_, hstep, ?_⟩
      rw [after_flush]
      exact hbefore.input.symm
    · cases (hperform m₁ hbefore _).symm.trans hdone

/-! ### The main result -/

/-- **Runs account for all that they write, read and flush.** Take a run of any length of a machine
without a tracer, or with one that takes every line. Any of its writes, reads and flushes may fail.

The bytes written are the low bytes of the operands of the `out`s that succeeded, in order. The
bytes taken off the input are, in order, those that the `in`s that succeeded have left in their
registers. The flushes tried are one for each `in` that was started. Whenever a byte of input is
requested, the output has been flushed since the last byte written; and an `in` whose flush fails
leaves the input alone.

A run whose loop ends tries one more flush, after all else. If the loop has failed, the run fails in
the same way; if it has halted, the run does so too, unless this flush fails. -/
theorem run_traffic (symbols : SymbolTable) (m : Machine) (fuel : Nat) (h : m.TakesLines) :
    Traffic m (loop symbols fuel m).1 ((history symbols fuel m).filterMap (emitted? symbols))
        ((history symbols fuel m).filterMap (delivered? symbols))
        ((history symbols fuel m).countP startsInput) ∧
      (∀ s ∈ history symbols fuel m, ∀ target length, s.fetch = .ok (.input target, length) →
        s.output.flushes s.output.flushed = false →
        ∃ failed, step symbols s = .error (.device .flushFailed) failed ∧
          failed.input = s.input) ∧
      (∀ last, loop symbols fuel m = (last, none) → run symbols fuel m = (last, none)) ∧
      ∀ last result, loop symbols fuel m = (last, some result) →
        (run symbols fuel m).1.dealings =
            last.dealings ++ [.flushed (last.output.flushes last.output.flushed)] ∧
          Traffic m (run symbols fuel m).1 ((history symbols fuel m).filterMap (emitted? symbols))
            ((history symbols fuel m).filterMap (delivered? symbols))
            ((history symbols fuel m).countP startsInput + 1) ∧
          (∀ e, result = .error e → (run symbols fuel m).2 = some (.error e)) ∧
          ∀ halt, result = .ok halt → (run symbols fuel m).2 =
            some (if last.output.flushes last.output.flushed then .ok halt
              else .error (.device .flushFailed)) := by
  have htraffic := traffic_of_loop symbols fuel h
  refine ⟨htraffic, fun s hs target length hfetch hrefused => ?_, fun last hloop => ?_,
    fun last result hloop => ?_⟩
  · exact step_of_flush_refused symbols (takesLines_of_mem_history h hs) hfetch hrefused
  · rw [run, hloop]
  · have hfinish : run symbols fuel m = ((finish last result).1, some (finish last result).2) :=
      run_eq_some_iff.mpr ⟨last, result, hloop, rfl⟩
    rw [finish_eq] at hfinish
    rw [hfinish]
    refine ⟨dealings_flush last, ?_, ?_, ?_⟩
    · have hwhole := htraffic.trans (traffic_flush (loop symbols fuel m).1)
      rw [List.append_nil, List.append_nil, hloop] at hwhole
      exact hwhole
    · rintro e rfl
      rw [Except.bind, ite_self]
    · rintro halt rfl
      rfl

/-- A program that reads a byte and writes it. -/
def echoImage : Image := ⟨#[20, 32768, 19, 32768, 0, 0], by decide⟩

/-- A machine that runs this program up to the `out`. Its output can be flushed only once. -/
def echoing : Machine :=
  { ofImage echoImage with
    input := .ofBytes [97, 98], output := { flushes := .first 1 }, haltAt := some 2 }

/-- The machine when it has read. -/
def echoed : Machine :=
  { echoing with
    registers := RegisterFile.zero.set 0 97
    pc := 2
    input := .stream { unread := [98], requested := 1 }
    output := { flushes := .first 1, flushed := 1 }
    journal := #[.flushed true, .requested, .received 97] }

private theorem fetch_echoing : echoing.fetch = .ok (.input 0, 2) := by
  have hmemory : echoing.memory = .ofImage echoImage := rfl
  exact (fetch_of_image hmemory (by decide : 4 ≤ 6)).trans rfl

private theorem fetch_echoed : echoed.fetch = .ok (.output (.register 0), 2) := by
  have hmemory : echoed.memory = .ofImage echoImage := rfl
  exact (fetch_of_image hmemory (Nat.le_refl 6)).trans rfl

theorem run_traffic_echoing :
    echoing.TakesLines ∧
      (run .empty 2 echoing).2 = some (.error (.device .flushFailed)) ∧
      (run .empty 2 echoing).1.written = [97] ∧
      (run .empty 2 echoing).1.flushCount = 2 := by
  have hlines : echoing.TakesLines := nofun
  have hread : step .empty echoing = .ok ⟨none, 2⟩ echoed := by
    rw [step_apply, fetch_echoing]
    rfl
  have hwrite : ∃ last, step .empty echoed = .ok ⟨none, 4⟩ last ∧ last.haltAt = some 2 ∧
      last.output.flushes last.output.flushed = false := by
    rw [step_apply, fetch_echoed]
    exact ⟨_, rfl, rfl, rfl⟩
  obtain ⟨last, hwrite, hhaltAt, hrefused⟩ := hwrite
  have hgoesOn : echoed.haltReason? echoing.pc ⟨none, 2⟩ = none := rfl
  have hhalts : last.haltReason? echoed.pc ⟨none, 4⟩ = some .breakpoint := by
    rw [haltReason?, hhaltAt]
    rfl
  have hloop : loop .empty 2 echoing = (last, some (.ok ⟨2, .breakpoint⟩)) := by
    rw [loop_succ_of_none hread hgoesOn 1, loop_succ_of_halt hwrite hhalts 0]
    rfl
  have hhistory : history .empty 2 echoing = [echoing, echoed] := by
    rw [history_succ_of_none hread hgoesOn 1, history_succ_of_halt hwrite hhalts 0]
  have hsilent : emitted? .empty echoing = none := by
    rw [emitted?, executed?, fetch_echoing, hread]
    rfl
  have hemitted : emitted? .empty echoed = some 97 := by
    rw [emitted?, executed?, fetch_echoed, hwrite]
    rfl
  have hstarts : echoing.startsInput = true := by
    rw [startsInput, fetch_echoing]
    rfl
  have hstartsNone : ¬echoed.startsInput = true := by
    rw [startsInput, fetch_echoed]
    exact Bool.false_ne_true
  obtain ⟨-, -, -, hfinish⟩ := run_traffic .empty echoing 2 hlines
  obtain ⟨-, htraffic, -, hhalted⟩ := hfinish last _ hloop
  rw [hhistory, List.filterMap_cons_none hsilent, List.filterMap_cons_some hemitted,
    List.countP_cons_of_pos hstarts, List.countP_cons_of_neg hstartsNone] at htraffic
  have hresult := hhalted ⟨2, .breakpoint⟩ rfl
  rw [hrefused] at hresult
  exact ⟨hlines, hresult, htraffic.written, htraffic.flushCount⟩

end Machine

end WordMachine
