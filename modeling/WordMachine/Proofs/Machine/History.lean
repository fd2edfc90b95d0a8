import WordMachine.Proofs.Machine.Run

/-!
# The history of a run

The **history** of a run lists the machines at which its loop starts a step, in chronological order
(`getElem?_history`). What a run does is then a matter of what the steps from these machines do:
`history_induction` is the induction over all runs, in which only the single step is left to show.
-/

namespace WordMachine

namespace Machine

open WordMachine.Action

variable {symbols : SymbolTable} {fuel : Nat} {m s : Machine}

/-- The machines at which a loop of at most `fuel` steps starts a step, in chronological order. The
last of these steps may fail or halt. -/
def history (symbols : SymbolTable) : Nat → Machine → List Machine
  | 0, _ => []
  | fuel + 1, m =>
    m :: match step symbols m with
      | .error _ _ => []
      | .ok control m' =>
        match m'.haltReason? m.pc control with
        | some _ => []
        | none => history symbols fuel m'

/-- One step of a history, and the history from there on. -/
theorem history_succ (symbols : SymbolTable) (fuel : Nat) (m : Machine) :
    history symbols (fuel + 1) m =
      m :: match step symbols m with
        | .error _ _ => []
        | .ok control m' =>
          match m'.haltReason? m.pc control with
          | some _ => []
          | none => history symbols fuel m' := rfl

/-- A history goes on from a step that does not halt. -/
theorem history_succ_of_none {control : Control} (h : step symbols m = .ok control s)
    (hhalt : s.haltReason? m.pc control = none) (fuel : Nat) :
    history symbols (fuel + 1) m = m :: history symbols fuel s := by
  simp only [history_succ, h, hhalt]

/-- A history ends with a step that halts. -/
theorem history_succ_of_halt {control : Control} {reason : HaltReason}
    (h : step symbols m = .ok control s) (hhalt : s.haltReason? m.pc control = some reason)
    (fuel : Nat) : history symbols (fuel + 1) m = [m] := by
  simp only [history_succ, h, hhalt]

/-- The machines of the history are those that the loop reaches when it is cut off earlier. -/
theorem getElem?_history {k : Nat} :
    (history symbols fuel m)[k]? = some s ↔ k < fuel ∧ loop symbols k m = (s, none) := by
  induction fuel generalizing m k with
  | zero => simp [history]
  | succ fuel ih =>
    rw [history_succ]
    cases k with
    | zero => simp [loop]
    | succ k =>
      rw [List.getElem?_cons_succ, loop_succ, Nat.add_lt_add_iff_right]
      -- A step that fails or halts is the last one, on both sides.
      cases step symbols m with
      | error e m' => simp
      | ok control m' =>
        dsimp only
        cases m'.haltReason? m.pc control with
        | some reason => simp
        | none => exact ih

theorem mem_history_iff :
    s ∈ history symbols fuel m ↔ ∃ k < fuel, loop symbols k m = (s, none) := by
  rw [List.mem_iff_getElem?]
  exact exists_congr fun k => getElem?_history

/-- What is true of every machine without a history, and is handed on by every step to the history
that it starts, is true of every run. -/
theorem history_induction {motive : Machine → List Machine → Machine → Prop}
    (nil : ∀ m, motive m [] m)
    (cons : ∀ m later last, motive ((step symbols).after m) later last →
      motive m (m :: later) last)
    (fuel : Nat) (m : Machine) :
    motive m (history symbols fuel m) (loop symbols fuel m).1 := by
  induction fuel generalizing m with
  | zero => exact nil m
  | succ fuel ih =>
    rw [history_succ, loop_succ]
    cases hstep : step symbols m with
    | error e m' => exact cons m [] m' (after_of_error hstep ▸ nil m')
    | ok control m' =>
      dsimp only
      cases m'.haltReason? m.pc control with
      | some reason => exact cons m [] m' (after_of_ok hstep ▸ nil m')
      | none => exact cons m _ _ (after_of_ok hstep ▸ ih m')

end Machine

end WordMachine
