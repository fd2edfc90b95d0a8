import Mathlib.Data.List.Infix
import Mathlib.Logic.Relation
import WordMachine.Proofs.Machine.Execution

/-!
# Calls return

A call leaves the address behind it on the stack, on top of all that was there before. Each step
takes at most the top off the stack or puts a word on it (`stack_of_step`), so as long as the stack
stays higher than it was before the call, its lowest words stay as the call left them. A return at
that height goes back behind the call and leaves the stack as it was (`call_returns`), whatever was
done in between.
-/

namespace WordMachine

/-- What an instruction does to the stack: nothing, or it takes the top off, or it puts one on. -/
private theorem Instruction.stack_after {i : Instruction} {s : Snapshot} {t : Transition}
    (h : i.transition s = .ok t) :
    (s.after t).stack = s.stack ∨ (s.after t).stack = s.stack.tail ∨
      ∃ top, (s.after t).stack = top :: s.stack := by
  cases i with
  | push | call =>
    cases h
    exact .inr (.inr ⟨_, rfl⟩)
  | pop =>
    simp only [transition] at h
    split at h <;> cases h
    exact .inr (.inl rfl)
  | ret =>
    simp only [transition] at h
    split at h <;> cases h
    · exact .inl rfl
    · exact .inr (.inl rfl)
  | binary | load | store | input =>
    simp only [transition] at h
    split at h <;> cases h
    exact .inl rfl
  | _ =>
    cases h
    exact .inl rfl

namespace Machine

variable {symbols : SymbolTable} {m m' called last : Machine} {control : Control}
  {base : Stack} {height : Nat}

/-- A step leaves the stack as it is, takes the top off, or puts a word on it. -/
theorem stack_of_step (h : step symbols m = .ok control m') :
    m'.stack = m.stack ∨ m'.stack = m.stack.tail ∨ ∃ top, m'.stack = top :: m.stack := by
  obtain ⟨i, length, -, -, hfetch, -⟩ := exists_perform_of_step h
  obtain ⟨t, ht, hafter, -⟩ := followsTable_of_step hfetch h
  have hstack : m'.stack.map UInt16.toNat = (m.snapshot.after t).stack :=
    congrArg Snapshot.stack hafter
  obtain heq | heq | ⟨top, heq⟩ := Instruction.stack_after ht
  · exact .inl (Word.toNat_injective.list_map (hstack.trans heq))
  · refine .inr (.inl (Word.toNat_injective.list_map (hstack.trans (heq.trans ?_))))
    exact List.map_tail.symm
  · obtain ⟨w, rest, hw, -, hrest⟩ := List.map_eq_cons_iff.mp (hstack.trans heq)
    exact .inr (.inr ⟨w, hw.trans (congrArg (w :: ·) (Word.toNat_injective.list_map hrest))⟩)

/-- The lowest words of the stack stay, if it does not become lower than they are. -/
private theorem suffix_of_step (h : step symbols m = .ok control m') (hbase : base <:+ m.stack)
    (hheight : base.length ≤ m'.stack.length) : base <:+ m'.stack := by
  obtain heq | heq | ⟨top, heq⟩ := stack_of_step h
  · rwa [heq]
  · rw [heq] at hheight ⊢
    exact List.suffix_of_suffix_length_le hbase (List.tail_suffix _) hheight
  · rw [heq]
    exact hbase.trans (List.suffix_cons top m.stack)

/-- A step that succeeds and does not halt, with more than `height` words on the stack after it. -/
def GoesOnAbove (symbols : SymbolTable) (height : Nat) (m m' : Machine) : Prop :=
  (∃ control, step symbols m = .ok control m' ∧ control.halt = none) ∧ height < m'.stack.length

private theorem suffix_of_goesOnAbove (hlength : base.length = height + 1)
    (hbase : base <:+ m.stack)
    (h : Relation.ReflTransGen (GoesOnAbove symbols height) m m') : base <:+ m'.stack := by
  induction h with
  | refl => exact hbase
  | tail _ hlast ih =>
    obtain ⟨⟨control, hstep, -⟩, hheight⟩ := hlast
    exact suffix_of_step hstep ih (hlength ▸ hheight)

/-- The address behind a call lies in memory or just behind it. -/
private theorem toNat_pc_add_two {destination : Operand} {length : Nat}
    (hfetch : m.fetch = .ok (.call destination, length)) :
    (m.pc + 2).toNat = m.pc.toNat + 2 := by
  have hnext := toNat_next hfetch
  rw [length_eq_of_fetch hfetch] at hnext
  exact hnext

/-- A call puts the address behind it on the stack. -/
private theorem stack_of_call {destination : Operand} {length : Nat}
    (hfetch : m.fetch = .ok (.call destination, length)) (h : step symbols m = .ok control m') :
    m'.stack = (m.pc + 2) :: m.stack := by
  obtain ⟨t, ht, hafter, -⟩ := followsTable_of_step hfetch h
  cases ht
  have hstack : m'.stack.map UInt16.toNat = (m.pc.toNat + 2) :: m.stack.map UInt16.toNat :=
    congrArg Snapshot.stack hafter
  refine Word.toNat_injective.list_map (hstack.trans ?_)
  rw [List.map_cons, toNat_pc_add_two hfetch]

/-- A return takes the address on top of the stack off and goes there. -/
private theorem returned_of_step {address : Word} {rest : Stack} {length : Nat}
    (hfetch : m.fetch = .ok (.ret, length)) (hstack : m.stack = address :: rest)
    (h : step symbols m = .ok control m') :
    control.halt = none ∧ m'.pc = address ∧ m'.stack = rest := by
  obtain ⟨t, ht, hafter, hhalt⟩ := followsTable_of_step hfetch h
  have htop : m.snapshot.stack = address.toNat :: rest.map UInt16.toNat :=
    congrArg (List.map UInt16.toNat) hstack
  rw [Instruction.transition, htop] at ht
  cases ht
  have hpc : m'.pc.toNat = address.toNat := congrArg Snapshot.pc hafter
  have hrest : m'.stack.map UInt16.toNat = m.snapshot.stack.tail := congrArg Snapshot.stack hafter
  rw [htop] at hrest
  exact ⟨hhalt, Word.toNat_injective hpc, Word.toNat_injective.list_map hrest⟩

/-- Nothing but a line of the trace can keep a machine from returning. -/
private theorem exists_step_of_ret {length : Nat} (h : m.TakesLines)
    (hfetch : m.fetch = .ok (.ret, length)) : ∃ control m', step symbols m = .ok control m' := by
  obtain ⟨e, hfetch', -⟩ | ⟨i, n, m₁, hfetch', -, hfails | ⟨control, -, m', -, hstep, -⟩⟩ :=
    step_cases_of_takesLines symbols h
  · cases hfetch.symm.trans hfetch'
  · cases hfetch.symm.trans hfetch'
    obtain ⟨e, failed, hperform, -⟩ := hfails
    simp only [Instruction.effect] at hperform
    split at hperform <;> cases hperform
  · exact ⟨control, m', hstep⟩

/-! ### The main result -/

/-- **Calls return.** Take any machine that stands at a call, the machine after the call, and any
number of further steps that succeed and do not halt, whatever they push, pop, call or write. If the
stack stays higher than it was before the call, then its lowest words are still those from before
the call, with the address behind the call on top of them. A return with nothing above that address
goes there and leaves the stack exactly as it was before the call, and it fails only if a line of
the trace is refused. -/
theorem call_returns (symbols : SymbolTable) (m called last : Machine) (destination : Operand)
    (length : Nat) (control : Control) (hfetch : m.fetch = .ok (.call destination, length))
    (hcall : step symbols m = .ok control called)
    (hrun : Relation.ReflTransGen (GoesOnAbove symbols m.stack.length) called last) :
    (m.pc + 2).toNat = m.pc.toNat + 2 ∧
      ((m.pc + 2) :: m.stack) <:+ last.stack ∧
      ∀ n, last.fetch = .ok (.ret, n) → last.stack.length = m.stack.length + 1 →
        (∀ control' returned, step symbols last = .ok control' returned →
          control'.halt = none ∧ returned.pc = m.pc + 2 ∧ returned.stack = m.stack) ∧
        (last.TakesLines → ∃ control' returned, step symbols last = .ok control' returned) := by
  have hbase : ((m.pc + 2) :: m.stack) <:+ called.stack := by rw [stack_of_call hfetch hcall]
  have hsuffix := suffix_of_goesOnAbove (List.length_cons ..) hbase hrun
  refine ⟨toNat_pc_add_two hfetch, hsuffix, fun n hret hheight => ⟨?_, ?_⟩⟩
  · intro control' returned hstep
    have hstack : (m.pc + 2) :: m.stack = last.stack := hsuffix.eq_of_length hheight.symm
    exact returned_of_step hret hstack.symm hstep
  · exact fun hlines => exists_step_of_ret hlines hret

/-- A program that calls a routine at 4, which pushes a word, pops it and returns. -/
def callImage : Image := ⟨#[17, 4, 0, 0, 2, 7, 3, 32768, 18, 0, 0, 0], by decide⟩

/-- A machine that runs this program. -/
abbrev calling : Word → Stack → Word → Machine := stoppedIn callImage

theorem call_returns_calling :
    ∃ called last, (calling 0 [9] 0).fetch = .ok (.call (.literal 4), 2) ∧
      step .empty (calling 0 [9] 0) = .ok ⟨none, 4⟩ called ∧
      Relation.ReflTransGen (GoesOnAbove .empty 1) called last ∧
      last.fetch = .ok (.ret, 1) ∧
      ∃ control returned, step .empty last = .ok control returned ∧ returned.pc = 2 ∧
        returned.stack = [9] := by
  have hfetch : (calling 0 [9] 0).fetch = .ok (.call (.literal 4), 2) :=
    (fetch_stoppedIn (by decide)).trans rfl
  have hpush : (calling 0 [2, 9] 4).fetch = .ok (.push (.literal 7), 2) :=
    (fetch_stoppedIn (by decide)).trans rfl
  have hpop : (calling 0 [7, 2, 9] 6).fetch = .ok (.pop 0, 2) :=
    (fetch_stoppedIn (by decide)).trans rfl
  have hret : (calling 7 [2, 9] 8).fetch = .ok (.ret, 1) :=
    (fetch_stoppedIn (by decide)).trans rfl
  have hcall : step .empty (calling 0 [9] 0) = .ok ⟨none, 4⟩ (calling 0 [2, 9] 4) := by
    rw [step_apply, hfetch]
    rfl
  have hpushed : step .empty (calling 0 [2, 9] 4) = .ok ⟨none, 6⟩ (calling 0 [7, 2, 9] 6) := by
    rw [step_apply, hpush]
    rfl
  have hpopped : step .empty (calling 0 [7, 2, 9] 6) = .ok ⟨none, 8⟩ (calling 7 [2, 9] 8) := by
    rw [step_apply, hpop]
    rfl
  have hrun : Relation.ReflTransGen (GoesOnAbove .empty 1) (calling 0 [2, 9] 4)
      (calling 7 [2, 9] 8) :=
    .tail (.single ⟨⟨_, hpushed, rfl⟩, by decide⟩) ⟨⟨_, hpopped, rfl⟩, by decide⟩
  obtain ⟨-, -, hreturn⟩ := call_returns .empty _ _ _ _ _ _ hfetch hcall hrun
  obtain ⟨hreturned, hsucceeds⟩ := hreturn 1 hret rfl
  obtain ⟨control, returned, hstep⟩ := hsucceeds nofun
  obtain ⟨-, hpc, hstack⟩ := hreturned control returned hstep
  exact ⟨_, _, hfetch, hcall, hrun, hret, control, returned, hstep, hpc, hstack⟩

end Machine

end WordMachine
