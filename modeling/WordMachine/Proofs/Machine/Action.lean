import WordMachine.Proofs.Machine.Agreement

/-!
# What actions do

An action of the machine is a function from machines to outcomes. The first section opens the
monadic notation, and the second gives each dealing with a device as one equation: which outcome it
has, what it adds to the journal, and which counters move.

The third section is about **quiet** actions: the machine after such an action agrees with the one
before but for tracing, whatever came of it. All tracing is quiet (`quiet_trace`,
`quiet_traceRegisters`).
-/

namespace WordMachine

namespace Action

variable {α β : Type}

/-! ### Opening the notation -/

@[simp] theorem pure_apply (a : α) (m : Machine) : (pure a : Action α) m = .ok a m := rfl

@[simp] theorem throw_apply (e : MachineError) (m : Machine) :
    (throw e : Action α) m = .error e m := rfl

@[simp] theorem get_apply (m : Machine) : (get : Action Machine) m = .ok m m := rfl

@[simp] theorem set_apply (m m' : Machine) : (set m' : Action PUnit) m = .ok () m' := rfl

@[simp] theorem modify_apply (f : Machine → Machine) (m : Machine) :
    (modify f : Action PUnit) m = .ok () (f m) := rfl

@[simp] theorem bind_apply (x : Action α) (f : α → Action β) (m : Machine) :
    (x >>= f) m = match x m with
      | .ok a m' => f a m'
      | .error e m' => .error e m' := by
  cases h : x m <;> simp [bind, EStateM.bind, h]

@[simp] theorem map_apply (f : α → β) (x : Action α) (m : Machine) :
    (f <$> x) m = match x m with
      | .ok a m' => .ok (f a) m'
      | .error e m' => .error e m' := by
  cases h : x m <;> simp [Functor.map, EStateM.map, h]

/-- An action that goes on succeeds when its first part does and its second does after that. -/
theorem bind_eq_ok_iff {x : Action α} {f : α → Action β} {m m' : Machine} {b : β} :
    (x >>= f) m = .ok b m' ↔ ∃ a m₁, x m = .ok a m₁ ∧ f a m₁ = .ok b m' := by
  rw [bind_apply]
  cases x m <;> simp

/-- An action that goes on fails in its first part or, after that, in its second. -/
theorem bind_eq_error_iff {x : Action α} {f : α → Action β} {m m' : Machine} {e : MachineError} :
    (x >>= f) m = .error e m' ↔
      x m = .error e m' ∨ ∃ a m₁, x m = .ok a m₁ ∧ f a m₁ = .error e m' := by
  rw [bind_apply]
  cases h : x m with
  | ok a m₁ =>
    refine ⟨fun hf => .inr ⟨a, m₁, rfl, hf⟩, ?_⟩
    rintro (⟨⟨⟩⟩ | ⟨a', m₁', ⟨⟩, hf⟩)
    exact hf
  | error e m₁ => simp

/-- The machine after an action, whatever came of it. -/
def after (x : Action α) (m : Machine) : Machine :=
  match x m with
  | .ok _ m' => m'
  | .error _ m' => m'

theorem after_of_ok {x : Action α} {m m' : Machine} {a : α} (h : x m = .ok a m') :
    x.after m = m' := by rw [after, h]

theorem after_of_error {x : Action α} {m m' : Machine} {e : MachineError}
    (h : x m = .error e m') : x.after m = m' := by rw [after, h]

/-- An action **keeps** an equivalence of machines when the machine after it is equivalent to the
one before, whatever came of it. -/
def Keeps (r : Setoid Machine) (x : Action α) : Prop := ∀ m, r m (x.after m)

namespace Keeps

variable {r : Setoid Machine} {x : Action α} {m m' : Machine}

theorem pure (a : α) : Keeps r (pure a : Action α) := fun m => r.refl' m

theorem throw (e : MachineError) : Keeps r (throw e : Action α) := fun m => r.refl' m

theorem bind {f : α → Action β} (hx : x.Keeps r) (hf : ∀ a, (f a).Keeps r) :
    (x >>= f).Keeps r := by
  intro m
  have hxm := hx m
  rw [after, bind_apply]
  cases h : x m with
  | ok a m₁ =>
    rw [after_of_ok h] at hxm
    exact r.trans' hxm (hf a m₁)
  | error e m₁ =>
    rw [after_of_error h] at hxm
    exact hxm

/-- An action that keeps an equivalence may depend on the machine. -/
theorem get_bind {f : Machine → Action α} (hf : ∀ m, (f m).Keeps r) : (get >>= f).Keeps r :=
  fun m => hf m m

theorem of_ok (hx : x.Keeps r) {a : α} (h : x m = .ok a m') : r m m' := after_of_ok h ▸ hx m

theorem of_error (hx : x.Keeps r) {e : MachineError} (h : x m = .error e m') : r m m' :=
  after_of_error h ▸ hx m

end Keeps

/-- An action is **quiet** when the machine after it agrees with the one before but for tracing. -/
abbrev Quiet (x : Action α) : Prop := x.Keeps Machine.agreeButTrace

end Action

namespace Machine

/-! ### Devices -/

theorem note_apply (event : Event) (m : Machine) :
    note event m = .ok () { m with journal := m.journal.push event } := rfl

theorem writeByte_apply (b : UInt8) (m : Machine) :
    writeByte b m =
      if m.output.takes m.output.offered then
        .ok () { m with output := m.output.offer.2, journal := m.journal.push (.wrote b) }
      else .error (.device .writeFailed) { m with output := m.output.offer.2 } := by
  cases h : m.output.takes m.output.offered <;> simp [writeByte, Output.offer, note_apply, h]

theorem flush_apply (m : Machine) :
    flush m =
      if m.output.flushes m.output.flushed then
        .ok () { m with output := m.output.flush.2, journal := m.journal.push (.flushed true) }
      else
        .error (.device .flushFailed)
          { m with output := m.output.flush.2, journal := m.journal.push (.flushed false) } := by
  cases h : m.output.flushes m.output.flushed <;> simp [flush, Output.flush, note_apply, h]

/-- The machine after a flush, whether it succeeds or not. -/
theorem after_flush (m : Machine) :
    flush.after m =
      { m with
        output := m.output.flush.2
        journal := m.journal.push (.flushed (m.output.flushes m.output.flushed)) } := by
  rw [Action.after, flush_apply]
  cases m.output.flushes m.output.flushed <;> rfl

/-- Keys are noted one after another. -/
private theorem forM_note_pressed (keys : List Key) (m : Machine) :
    (keys.forM fun key => note (.pressed key)) m =
      .ok () { m with journal := m.journal ++ (keys.map Event.pressed).toArray } := by
  induction keys generalizing m with
  | nil => simp
  | cons key keys ih =>
    -- The first key is noted, and the induction takes up the journal with it.
    change (note (.pressed key) >>= fun _ => keys.forM fun key => note (.pressed key)) m = _
    rw [Action.bind_apply, note_apply]
    refine (ih _).trans ?_
    simp

/-- The machine once a byte was requested: the input has moved on, the keys taken for it are noted,
and they may have switched tracing. -/
def requested (m : Machine) : Machine :=
  let reply := m.input.request
  { m with
    input := reply.rest
    tracing := Terminal.tracingAfter m.tracing reply.pressed
    journal := m.journal.push .requested ++ (reply.pressed.map Event.pressed).toArray }

theorem written_requested (m : Machine) : m.requested.written = m.written := by
  simp [requested, written, Event.written?]

theorem requestByte_apply (m : Machine) :
    requestByte m = .ok m.input.request.answer m.requested := by
  simp only [requestByte, Action.bind_apply, note_apply, Action.get_apply, Action.modify_apply,
    forM_note_pressed, Action.pure_apply]
  rfl

theorem readByte_apply (pc : Word) (m : Machine) :
    readByte pc m =
      match m.input.request.answer with
      | .byte b => .ok b { m.requested with journal := m.requested.journal.push (.received b) }
      | .ended => .error (.inputExhausted pc) m.requested
      | .failed => .error (.device .readFailed) m.requested
      | .interrupted => .error (.interrupted pc) m.requested := by
  simp only [readByte, Action.bind_apply, requestByte_apply]
  cases m.input.request.answer <;> rfl

/-! ### Tracing -/

theorem pollSwitch_apply (m : Machine) :
    pollSwitch m =
      match m.tracer with
      | some tracer =>
        let tracing := m.tracing != tracer.flips tracer.polls
        .ok tracing
          { m with tracing := tracing, tracer := some { tracer with polls := tracer.polls + 1 } }
      | none => .ok false m := by
  cases h : m.tracer <;> simp [pollSwitch, h]

theorem offerLine_apply (line : String) (m : Machine) :
    offerLine line m =
      match m.tracer with
      | some tracer =>
        let offered := some { tracer with offered := tracer.offered + 1 }
        if tracer.takes tracer.offered then
          .ok () { m with tracer := offered, journal := m.journal.push (.traced line) }
        else .error (.device .writeFailed) { m with tracer := offered }
      | none => .ok () m := by
  cases h : m.tracer with
  | none => simp [offerLine, h]
  | some tracer => cases ht : tracer.takes tracer.offered <;> simp [offerLine, note_apply, h, ht]

/-- Without a tracer nothing is traced. -/
theorem trace_of_untraced {m : Machine} (h : m.tracer = none) (line : Machine → String) :
    trace line m = .ok () m := by
  simp [trace, pollSwitch_apply, h]

theorem traceRegisters_of_untraced {m : Machine} (h : m.tracer = none) :
    traceRegisters m = .ok () m := by
  simp [traceRegisters, pollSwitch_apply, h]

theorem quiet_pollSwitch : pollSwitch.Quiet := by
  intro m
  rw [Action.after, pollSwitch_apply]
  cases m.tracer <;> exact ⟨rfl, rfl, rfl, rfl, rfl, rfl, rfl, rfl⟩

theorem quiet_offerLine (line : String) : (offerLine line).Quiet := by
  intro m
  rw [Action.after, offerLine_apply]
  cases m.tracer with
  | none => exact .refl m
  | some tracer =>
    -- A line that is taken goes to the journal, but is none of the dealings.
    have hline : m.dealings = { m with journal := m.journal.push (.traced line) }.dealings := by
      simp [dealings, Event.line?]
    cases ht : tracer.takes tracer.offered with
    | true => simpa [ht] using ⟨rfl, rfl, rfl, rfl, rfl, rfl, rfl, hline⟩
    | false => simpa [ht] using ⟨rfl, rfl, rfl, rfl, rfl, rfl, rfl, rfl⟩

theorem quiet_trace (line : Machine → String) : (trace line).Quiet := by
  refine .bind quiet_pollSwitch fun tracing => ?_
  cases tracing with
  | true => exact .get_bind fun m => quiet_offerLine (line m)
  | false => exact .pure ()

theorem quiet_traceRegisters : traceRegisters.Quiet := by
  refine .bind quiet_pollSwitch fun tracing => ?_
  cases tracing with
  | false => exact .pure ()
  | true =>
    refine .get_bind fun m => ?_
    split
    · exact .get_bind fun m => quiet_offerLine m.registers.text
    · exact .pure ()

end Machine

end WordMachine
