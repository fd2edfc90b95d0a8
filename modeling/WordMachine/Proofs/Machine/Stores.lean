import WordMachine.Proofs.Machine.Traffic
import WordMachine.Proofs.Memory.Replay

/-!
# What a run stores

Memory changes by stores alone. A machine that is about to start a step **stores** a word if it has
fetched a `store` (`Machine.stored?`). The memory after a run is the memory before it with the words
that were stored put in place one after the other, those with an address outside of memory left out
(`Memory.replay`, `memory_of_loop`). So a cell that no step has stored to holds what it held before.
-/

namespace WordMachine

/-! ### Stores of instructions -/

/-- The address and the value that an instruction stores, if it is a `store`. The address may lie
outside of memory. -/
def Instruction.stored? (before : RegisterFile) : Instruction → Option (Word × Word)
  | store address source => some (before.value address, before.value source)
  | _ => none

/-- Memory after an effect. -/
def Effect.memory (before : Memory) : Effect → Memory
  | compute core _ => core.memory
  | fault _ | emit _ | receive _ => before

/-- An instruction changes memory by its store alone. -/
private theorem Instruction.memory_effect (i : Instruction) (core : Core) (pc next : Word) :
    (i.effect core pc next).memory core.memory =
      core.memory.replay (i.stored? core.registers).toList := by
  cases i with
  | store address source =>
    have hreplay : core.memory.replay ((store address source).stored? core.registers).toList =
        core.memory.put (core.value address) (core.value source) := rfl
    rw [hreplay, effect, Memory.write]
    by_cases hholds : Memory.Holds (core.value address)
    · rw [if_pos hholds]
      rfl
    · rw [if_neg hholds, Memory.put_of_not_holds hholds]
      rfl
  | pop | binary | load | ret =>
    simp only [effect]
    split <;> rfl
  | _ => rfl

namespace Machine

open WordMachine.Action

variable {symbols : SymbolTable} {m m' s : Machine} {pc next : Word}

/-! ### Stores of steps -/

/-- What a step that starts here stores, if it comes to that. -/
def stored? (m : Machine) : Option (Word × Word) :=
  match m.fetch with
  | .ok (i, _) => i.stored? m.registers
  | .error _ => none

private theorem memory_perform (effect : Effect) :
    ((perform pc next effect).after m).memory = effect.memory m.memory := by
  have hflush : flush.Keeps (.ker memory) := fun m => by
    rw [after_flush]
    rfl
  have hread : (readByte pc).Keeps (.ker memory) := fun m => by
    rw [after, readByte_apply]
    cases m.input.request.answer <;> rfl
  have hwrite (b : UInt8) : (writeByte b).Keeps (.ker memory) := fun m => by
    rw [after, writeByte_apply]
    cases m.output.takes m.output.offered <;> rfl
  cases effect with
  | fault | compute => rfl
  | emit b => exact (Keeps.bind (hwrite b) (fun _ => .pure _) m).symm
  | receive target => exact (Keeps.bind hflush (fun _ => .bind hread fun _ _ => rfl) m).symm

/-- A step that succeeds has stored what it was to store. -/
private theorem memory_of_step_ok {control : Control} (h : step symbols m = .ok control m') :
    m'.memory = m.memory.replay m.stored?.toList := by
  obtain ⟨i, length, m₁, done, hfetch, hbefore, hperform, hafter⟩ := exists_perform_of_step h
  have hdone : done.memory = (i.effect m.core m.pc _).memory m₁.memory :=
    after_of_ok hperform ▸ memory_perform _
  have hmoved : (done.proceeded control).memory = done.memory := by
    rw [proceeded_eq]
  have hstores := i.memory_effect m.core m.pc (m.pc + UInt16.ofNat length)
  rw [← hafter.memory, hmoved, hdone, ← hbefore.memory, stored?, hfetch]
  exact hstores

/-- So has one that fails, where every line of the trace is taken. -/
theorem memory_of_step (symbols : SymbolTable) (h : m.TakesLines) :
    ((step symbols).after m).memory = m.memory.replay m.stored?.toList := by
  obtain ⟨e, hfetch, hstep⟩ | ⟨i, length, m₁, hfetch, hbefore,
    ⟨e, failed, hperform, hstep, -⟩ | ⟨control, done, m', hperform, hstep, -⟩⟩ :=
    step_cases_of_takesLines symbols h
  · rw [after_of_error hstep, stored?, hfetch]
    rfl
  · have hfailed : failed.memory = (i.effect m.core m.pc _).memory m₁.memory :=
      after_of_error hperform ▸ memory_perform _
    have hstores := i.memory_effect m.core m.pc (m.pc + UInt16.ofNat length)
    rw [after_of_error hstep, hfailed, ← hbefore.memory, stored?, hfetch]
    exact hstores
  · rw [after_of_ok hstep]
    exact memory_of_step_ok hstep

/-! ### Stores of runs -/

/-- What a run has stored is what its steps have stored. -/
theorem memory_of_loop (symbols : SymbolTable) (fuel : Nat) (m : Machine)
    (h : ∀ s ∈ history symbols fuel m,
      ((step symbols).after s).memory = s.memory.replay s.stored?.toList) :
    (loop symbols fuel m).1.memory =
      m.memory.replay ((history symbols fuel m).filterMap stored?) := by
  refine history_induction (motive := fun m steps last =>
    (∀ s ∈ steps, ((step symbols).after s).memory = s.memory.replay s.stored?.toList) →
      last.memory = m.memory.replay (steps.filterMap stored?)) ?_ ?_ fuel m h
  · exact fun _ _ => rfl
  · intro m later last ih h
    obtain ⟨hfirst, hlater⟩ := List.forall_mem_cons.mp h
    have hcons : (m :: later).filterMap stored? =
        m.stored?.toList ++ later.filterMap stored? := by
      simp only [List.filterMap_eq_flatMap_toList, List.flatMap_cons]
    rw [ih hlater, hfirst, hcons, Memory.replay_append]

/-- As long as a loop goes on, its steps succeed. -/
private theorem exists_step_of_loop_none {n : Nat} (h : loop symbols n m = (s, none)) {t : Machine}
    (ht : t ∈ history symbols n m) : ∃ control t', step symbols t = .ok control t' := by
  obtain ⟨k, hk, hloop⟩ := mem_history_iff.mp ht
  obtain ⟨more, rfl⟩ := Nat.exists_eq_add_of_lt hk
  rw [Nat.add_assoc, loop_add_of_none hloop, loop_succ] at h
  cases hstep : step symbols t with
  | error e t' =>
    rw [hstep] at h
    cases h
  | ok control t' => exact ⟨control, t', rfl⟩

/-- Such a loop has stored what its steps were to store, whatever tracing does. -/
theorem memory_of_loop_none {n : Nat} (h : loop symbols n m = (s, none)) :
    s.memory = m.memory.replay ((history symbols n m).filterMap stored?) := by
  have hmemory := memory_of_loop symbols n m fun t ht => by
    obtain ⟨control, t', hstep⟩ := exists_step_of_loop_none h ht
    rw [after_of_ok hstep]
    exact memory_of_step_ok hstep
  rwa [h] at hmemory

end Machine

end WordMachine
