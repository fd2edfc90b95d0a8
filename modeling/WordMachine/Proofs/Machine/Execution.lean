import WordMachine.Proofs.Machine.Refinement

/-!
# What carrying out an instruction leads to

Corollaries of the refinement of the instruction table, in the form in which runs are reasoned
about. An instruction that was fetched lies in memory and can be told from others
(`isEncodable_of_fetch`, `pc_add_length_le`). If it is carried out, with or without a step that
succeeds, the core follows the table (`followsTable_of_carryOut`, `followsTable_of_step`).

Where every line of the trace is taken, a step succeeds or fails as its effect does
(`step_cases_of_takesLines`): tracing then neither fails nor changes anything else.
-/

namespace WordMachine

namespace Machine

open WordMachine.Action

variable {symbols : SymbolTable} {m m' done : Machine} {i : Instruction} {length : Nat}
  {control : Control}

/-! ### Instructions that are fetched -/

theorem length_eq_of_fetch (h : m.fetch = .ok (i, length)) : length = i.length := by
  rw [fetch, Instruction.decode_eq, Instruction.ofWords_eq_ok_iff] at h
  exact h.2.1

/-- The literals of an instruction in memory are below 32768. -/
theorem isEncodable_of_fetch (h : m.fetch = .ok (i, length)) : i.IsEncodable := by
  rw [fetch, Instruction.decode_eq, Instruction.ofWords_eq_ok_iff] at h
  exact h.1

/-- An instruction does not reach beyond the end of memory. -/
theorem pc_add_length_le (h : m.fetch = .ok (i, length)) : m.pc.toNat + i.length ≤ 32768 := by
  rw [fetch, Instruction.decode_eq, Instruction.ofWords_eq_ok_iff] at h
  have hle : i.length ≤ memorySize - m.pc.toNat := by simpa using h.2.2.length_le
  have hpos := i.length_pos
  rw [memorySize] at hle
  omega

/-! ### Instructions that are carried out -/

/-- Up to tracing, carrying out an instruction is performing its effect. -/
theorem exists_perform_of_carryOut (h : carryOut symbols m = .ok control done) :
    ∃ i length m₁, m.fetch = .ok (i, length) ∧ m.AgreeButTrace m₁ ∧
      perform m.pc (m.pc + UInt16.ofNat length)
        (i.effect m.core m.pc (m.pc + UInt16.ofNat length)) m₁ = .ok control done := by
  simp only [carryOut, bind_apply, get_apply] at h
  cases hfetch : m.fetch with
  | error e =>
    rw [hfetch] at h
    cases h
  | ok fetched =>
    rw [hfetch] at h
    obtain ⟨_, m₁, htrace, h⟩ := bind_eq_ok_iff.mp h
    have htraced := (quiet_trace _).of_ok htrace
    rw [execute_apply] at h
    obtain ⟨_, m₂, hannounce, h⟩ := bind_eq_ok_iff.mp h
    have hannounced := (quiet_announce _).of_ok hannounce
    rw [← htraced.core_eq] at h
    exact ⟨fetched.1, fetched.2, m₂, rfl, htraced.trans hannounced, h⟩

/-- An instruction that is carried out follows the table, once the machine has moved on. -/
theorem followsTable_of_carryOut (hfetch : m.fetch = .ok (i, length))
    (h : carryOut symbols m = .ok control done) :
    FollowsTable m i control (done.proceeded control) := by
  obtain ⟨j, n, m₁, hfetch', hbefore, hperform⟩ := exists_perform_of_carryOut h
  cases hfetch.symm.trans hfetch'
  have hnext := toNat_next hfetch
  rw [hbefore.core_eq, hbefore.pc] at hperform
  rw [hbefore.pc] at hnext
  exact (followsTable_of_perform hnext hperform).congr hbefore.sameState (.refl _)

/-- A step that succeeds has carried out its instruction and moved on. -/
theorem exists_carryOut_of_step (h : step symbols m = .ok control m') :
    ∃ done, carryOut symbols m = .ok control done ∧ (done.proceeded control).AgreeButTrace m' := by
  rw [step] at h
  obtain ⟨control', done, hdone, h⟩ := bind_eq_ok_iff.mp h
  obtain ⟨_, dumped, hdump, h⟩ := bind_eq_ok_iff.mp h
  rw [bind_apply, proceed_apply] at h
  cases h
  exact ⟨done, hdone, (quiet_traceRegisters.of_ok hdump).proceeded control⟩

/-- A step that succeeds follows the table. -/
theorem followsTable_of_step (hfetch : m.fetch = .ok (i, length))
    (h : step symbols m = .ok control m') : FollowsTable m i control m' := by
  obtain ⟨done, hdone, hafter⟩ := exists_carryOut_of_step h
  exact (followsTable_of_carryOut hfetch hdone).congr (.refl m) hafter.sameState

/-! ### Steps where every line of the trace is taken -/

/-- Effects leave the tracer alone. -/
theorem keeps_tracer_perform (pc next : Word) (effect : Effect) :
    (perform pc next effect).Keeps (.ker tracer) := by
  cases effect with
  | fault e => exact .throw e
  | compute core control => exact fun _ => rfl
  | emit b =>
    refine .bind (fun m => ?_) fun _ => .pure _
    rw [after, writeByte_apply]
    cases m.output.takes m.output.offered <;> rfl
  | receive target =>
    refine .bind (fun m => ?_) fun _ => .bind (fun m => ?_) fun _ _ => rfl
    · rw [after_flush]
      rfl
    · rw [after, readByte_apply]
      cases m.input.request.answer <;> rfl

private theorem TakesLines.of_tracer_eq (h : m.TakesLines) (htracer : m.tracer = m'.tracer) :
    m'.TakesLines := by
  rw [TakesLines, ← htracer]
  exact h

theorem TakesLines.of_untraced (h : m.tracer = none) : m.TakesLines := by simp [TakesLines, h]

/-- Moving on changes the program counter at most. -/
theorem proceeded_eq (m : Machine) (control : Control) :
    m.proceeded control = { m with pc := (m.proceeded control).pc } := by
  rw [proceeded]
  split <;> rfl

private theorem goesThrough_announce (remark : Option String) : GoesThrough (announce remark) := by
  cases remark with
  | none => exact fun m h => ⟨m, rfl, h⟩
  | some line => exact goesThrough_trace fun _ => line

/-- What a step does where every line of the trace is taken. Up to tracing, it fails as the effect
of its instruction does, or it performs the effect and moves on. -/
theorem step_cases_of_takesLines (symbols : SymbolTable) (h : m.TakesLines) :
    (∃ e, m.fetch = .error e ∧ step symbols m = .error (.badInstruction m.pc e) m) ∨
      ∃ i length m₁, m.fetch = .ok (i, length) ∧ m.AgreeButTrace m₁ ∧
        ((∃ e failed, perform m.pc (m.pc + UInt16.ofNat length)
              (i.effect m.core m.pc (m.pc + UInt16.ofNat length)) m₁ = .error e failed ∧
            step symbols m = .error e failed ∧ failed.TakesLines) ∨
          ∃ control done m', perform m.pc (m.pc + UInt16.ofNat length)
              (i.effect m.core m.pc (m.pc + UInt16.ofNat length)) m₁ = .ok control done ∧
            step symbols m = .ok control m' ∧ (done.proceeded control).AgreeButTrace m' ∧
            m'.TakesLines) := by
  rw [step_apply]
  cases hfetch : m.fetch with
  | error e => exact .inl ⟨e, rfl, rfl⟩
  | ok fetched =>
    obtain ⟨i, length⟩ := fetched
    obtain ⟨m₁, htrace, h₁⟩ := goesThrough_trace (fun _ => instructionLine symbols m.pc i) m h
    obtain ⟨m₂, hannounce, h₂⟩ := goesThrough_announce (i.remark? m.core) m₁ h₁
    have hbefore := ((quiet_trace _).of_ok htrace).trans ((quiet_announce _).of_ok hannounce)
    refine .inr ⟨i, length, m₂, rfl, hbefore, ?_⟩
    simp only [bind_apply, htrace, hannounce]
    have hkeeps := keeps_tracer_perform m.pc (m.pc + UInt16.ofNat length)
      (i.effect m.core m.pc (m.pc + UInt16.ofNat length))
    cases hperform : perform m.pc (m.pc + UInt16.ofNat length)
        (i.effect m.core m.pc (m.pc + UInt16.ofNat length)) m₂ with
    | error e failed =>
      exact .inl ⟨e, failed, rfl, rfl, h₂.of_tracer_eq (hkeeps.of_error hperform)⟩
    | ok control done =>
      have h₃ : done.TakesLines := h₂.of_tracer_eq (hkeeps.of_ok hperform)
      obtain ⟨m₄, hdump, h₄⟩ := goesThrough_traceRegisters done h₃
      refine .inr ⟨control, done, m₄.proceeded control, rfl, ?_, ?_, ?_⟩
      · simp only [hdump, proceed_apply, pure_apply]
      · exact (quiet_traceRegisters.of_ok hdump).proceeded control
      · rw [proceeded_eq]
        exact h₄

/-! ### Programs in memory -/

/-- A machine with a program in memory, stopped at some instruction of it. -/
def stoppedIn (image : Image) (content : Word) (stack : Stack) (pc : Word) : Machine :=
  { ofImage image with registers := RegisterFile.zero.set 0 content, stack, pc }

theorem fetch_stoppedIn {image : Image} {content : Word} {stack : Stack} {pc : Word}
    (h : pc.toNat + 4 ≤ image.words.size) :
    (stoppedIn image content stack pc).fetch = Instruction.decode image.words pc.toNat :=
  fetch_of_image rfl h

end Machine

end WordMachine
