import WordMachine.Proofs.Machine.Effect

/-!
# What an instruction does not touch

An instruction is carried out, and traced, without a change of the machine's **orders**: where it
stands, where it is to stop, and whether registers are traced (`keeps_orders_carryOut`). The program
counter moves only afterwards.
-/

namespace WordMachine

namespace Machine

open WordMachine.Action

/-- Where the machine stands, where it is to stop, and whether registers are traced. -/
def orders (m : Machine) : Word × Option Word × Bool :=
  (m.pc, m.haltAt, m.tracer.any (·.dumpsRegisters))

/-- Having the same orders, as an equivalence of machines. -/
def sameOrders : Setoid Machine := .ker orders

theorem keeps_orders_pollSwitch : pollSwitch.Keeps sameOrders := by
  intro m
  rw [after, pollSwitch_apply]
  cases h : m.tracer with
  | none => rfl
  | some tracer =>
    have horders : m.orders = (m.pc, m.haltAt, tracer.dumpsRegisters) := by rw [orders, h]; rfl
    exact horders

private theorem keeps_orders_offerLine (line : String) : (offerLine line).Keeps sameOrders := by
  intro m
  rw [after, offerLine_apply]
  cases h : m.tracer with
  | none => rfl
  | some tracer =>
    have horders : m.orders = (m.pc, m.haltAt, tracer.dumpsRegisters) := by rw [orders, h]; rfl
    dsimp only
    cases tracer.takes tracer.offered with
    | true => exact horders
    | false => exact horders

private theorem keeps_orders_trace (line : Machine → String) : (trace line).Keeps sameOrders := by
  refine .bind keeps_orders_pollSwitch fun tracing => ?_
  cases tracing with
  | true => exact fun m => keeps_orders_offerLine (line m) m
  | false => exact .pure ()

private theorem keeps_orders_writeByte (b : UInt8) : (writeByte b).Keeps sameOrders := by
  intro m
  rw [after, writeByte_apply]
  cases m.output.takes m.output.offered <;> rfl

private theorem keeps_orders_flush : flush.Keeps sameOrders := by
  intro m
  rw [after, flush_apply]
  cases m.output.flushes m.output.flushed <;> rfl

private theorem keeps_orders_readByte (pc : Word) : (readByte pc).Keeps sameOrders := by
  intro m
  rw [after, readByte_apply]
  cases m.input.request.answer <;> rfl

theorem keeps_orders_perform (pc next : Word) (effect : Effect) :
    (perform pc next effect).Keeps sameOrders := by
  cases effect with
  | fault e => exact .throw e
  | compute core control => exact fun _ => rfl
  | emit b => exact .bind (keeps_orders_writeByte b) fun _ => .pure _
  | receive target =>
    exact .bind keeps_orders_flush fun _ => .bind (keeps_orders_readByte pc) fun _ _ => rfl

private theorem keeps_orders_execute (i : Instruction) (pc next : Word) :
    (execute i pc next).Keeps sameOrders := by
  intro m
  rw [after, execute_apply]
  refine Keeps.bind (?_ : (announce _).Keeps sameOrders) (fun _ => keeps_orders_perform pc next _) m
  cases i.remark? m.core with
  | none => exact .pure ()
  | some line => exact keeps_orders_trace fun _ => line

/-- An instruction is carried out without a change of orders. -/
theorem keeps_orders_carryOut (symbols : SymbolTable) : (carryOut symbols).Keeps sameOrders := by
  intro m
  rw [after, carryOut]
  simp only [bind_apply, get_apply]
  cases m.fetch with
  | error e => rfl
  | ok fetched =>
    exact Keeps.bind (keeps_orders_trace _) (fun _ => keeps_orders_execute fetched.1 m.pc _) m

end Machine

end WordMachine
