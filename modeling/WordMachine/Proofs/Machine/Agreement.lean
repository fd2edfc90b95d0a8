import Mathlib.Data.List.Basic
import Mathlib.Data.Setoid.Basic
import WordMachine.Machine.Journal
import WordMachine.Machine.Step

/-!
# Machines that agree

Two relations of machines, from the coarser to the finer one.

* `Machine.SameState`: a program has made the same of both machines. Devices may have been asked
  more often on one side, and the journals may differ in what was not written.
* `Machine.AgreeButTrace`: the machines differ at most in their tracer, in the state of its switch,
  and in the lines that it took.

Whatever is read off the journal apart from trace lines is the same in machines that agree but for
tracing.
-/

namespace WordMachine

namespace Machine

variable {m m' m'' : Machine}

/-! ### The same state -/

/-- What a program has made of its machine, the same in both machines. -/
structure SameState (m m' : Machine) : Prop where
  memory : m.memory = m'.memory
  registers : m.registers = m'.registers
  stack : m.stack = m'.stack
  pc : m.pc = m'.pc
  unread : m.input.unread = m'.input.unread
  written : m.written = m'.written

namespace SameState

theorem refl (m : Machine) : SameState m m := ⟨rfl, rfl, rfl, rfl, rfl, rfl⟩

theorem symm (h : SameState m m') : SameState m' m :=
  ⟨h.memory.symm, h.registers.symm, h.stack.symm, h.pc.symm, h.unread.symm, h.written.symm⟩

theorem trans (h : SameState m m') (h' : SameState m' m'') : SameState m m'' :=
  ⟨h.memory.trans h'.memory, h.registers.trans h'.registers, h.stack.trans h'.stack,
    h.pc.trans h'.pc, h.unread.trans h'.unread, h.written.trans h'.written⟩

end SameState

/-- Being in the same state, as an equivalence of machines. -/
def sameState : Setoid Machine := ⟨SameState, .refl, .symm, .trans⟩

/-! ### Agreement but for tracing -/

/-- The events of the journal that are no trace lines, in chronological order. -/
def dealings (m : Machine) : List Event := m.journal.toList.filter (·.line?.isNone)

/-- What is read off the journal event by event does not depend on trace lines, if these have
nothing to say to it. -/
theorem filterMap_dealings {α : Type} {view : Event → Option α}
    (hview : ∀ line, view (.traced line) = none) (m : Machine) :
    m.dealings.filterMap view = m.journal.toList.filterMap view := by
  rw [dealings, List.filterMap_filter]
  refine List.filterMap_congr fun event _ => ?_
  cases event with
  | traced line => simp [Event.line?, hview]
  | _ => rfl

theorem written_eq_filterMap_dealings (m : Machine) :
    m.written = m.dealings.filterMap Event.written? :=
  (filterMap_dealings (fun _ => rfl) m).symm

theorem flushCount_eq_countP_dealings (m : Machine) :
    m.flushCount = m.dealings.countP Event.isFlush := by
  rw [flushCount, dealings, List.countP_filter]
  refine List.countP_congr fun event _ => ?_
  cases event <;> simp [Event.isFlush, Event.line?]

/-- Two machines **agree but for tracing** when they differ at most in their tracer, in the state of
its switch, and in the lines that it took. -/
structure AgreeButTrace (m m' : Machine) : Prop where
  memory : m.memory = m'.memory
  registers : m.registers = m'.registers
  stack : m.stack = m'.stack
  pc : m.pc = m'.pc
  input : m.input = m'.input
  output : m.output = m'.output
  haltAt : m.haltAt = m'.haltAt
  dealings : m.dealings = m'.dealings

namespace AgreeButTrace

theorem refl (m : Machine) : AgreeButTrace m m := ⟨rfl, rfl, rfl, rfl, rfl, rfl, rfl, rfl⟩

theorem symm (h : AgreeButTrace m m') : AgreeButTrace m' m :=
  ⟨h.memory.symm, h.registers.symm, h.stack.symm, h.pc.symm, h.input.symm, h.output.symm,
    h.haltAt.symm, h.dealings.symm⟩

theorem trans (h : AgreeButTrace m m') (h' : AgreeButTrace m' m'') : AgreeButTrace m m'' :=
  ⟨h.memory.trans h'.memory, h.registers.trans h'.registers, h.stack.trans h'.stack,
    h.pc.trans h'.pc, h.input.trans h'.input, h.output.trans h'.output, h.haltAt.trans h'.haltAt,
    h.dealings.trans h'.dealings⟩

theorem written_eq (h : AgreeButTrace m m') : m.written = m'.written := by
  rw [written_eq_filterMap_dealings, written_eq_filterMap_dealings, h.dealings]

theorem flushCount_eq (h : AgreeButTrace m m') : m.flushCount = m'.flushCount := by
  rw [flushCount_eq_countP_dealings, flushCount_eq_countP_dealings, h.dealings]

theorem sameState (h : AgreeButTrace m m') : SameState m m' :=
  ⟨h.memory, h.registers, h.stack, h.pc, by rw [h.input], h.written_eq⟩

end AgreeButTrace

/-- Agreement but for tracing, as an equivalence of machines. -/
def agreeButTrace : Setoid Machine := ⟨AgreeButTrace, .refl, .symm, .trans⟩

end Machine

end WordMachine
