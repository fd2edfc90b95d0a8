import WordMachine.Machine.Step

/-!
# Running programs

A machine runs until it halts or fails, or until it has carried out the instruction at which it was
told to stop. The output is flushed once at the end, also after a failure; a failure of the run
itself comes before that of the flush. Programs need not halt, so a run is given a number of steps
and has no result if these are not enough.
-/

namespace WordMachine

namespace Machine

/-- Runs at most `fuel` steps, without the flush at the end. -/
def loop (symbols : SymbolTable) (fuel : Nat) (m : Machine) :
    Machine × Option (Except MachineError Halt) :=
  match fuel with
  | 0 => (m, none)
  | fuel + 1 =>
    let pc := m.pc
    match step symbols m with
    | .error e m => (m, some (.error e))
    | .ok control m =>
      if m.haltAt = some pc then (m, some (.ok ⟨pc, .breakpoint⟩))
      else
        match control.halt with
        | some reason => (m, some (.ok ⟨pc, reason⟩))
        | none => loop symbols fuel m

/-- Flushes the output at the end of a run. -/
def finish (m : Machine) (result : Except MachineError Halt) :
    Machine × Except MachineError Halt :=
  match flush m with
  | .ok () m => (m, result)
  | .error e m => (m, result.bind fun _ => .error e)

/-- Runs a machine for at most `fuel` steps. The result is that of the run, or `none` if it has not
ended by then. -/
def run (symbols : SymbolTable) (fuel : Nat) (m : Machine) :
    Machine × Option (Except MachineError Halt) :=
  match loop symbols fuel m with
  | (m, none) => (m, none)
  | (m, some result) =>
    let (m, result) := finish m result
    (m, some result)

end Machine

end WordMachine
