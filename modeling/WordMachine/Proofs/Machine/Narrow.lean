import WordMachine.Proofs.Machine.Execution
import WordMachine.Proofs.Machine.History

/-!
# Words below 32768

Registers and the stack hold 16 bits, but programs are written as if words had 15. A state is
**narrow** when its registers and its stack hold nothing from 32768 on. Nearly all instructions lead
from narrow states to narrow states, although only sums, products and complements are reduced: the
others cannot make anything wide out of what is narrow. Two can: a load of a wide cell, and a call
whose return address lies just behind the end of memory.

Where neither happens, a run stays narrow (`run_stays_narrow`). No cell is made wide then, since
only what is in a register or written in the program can be stored, and no address is out of range.

The case split over the instructions is made once, in the table (`narrow_transition`).
-/

namespace WordMachine

/-- Operations on numbers below 32768 give such numbers. -/
private theorem BinaryOp.onNumbers?_lt {op : BinaryOp} {left right result : Nat}
    (hleft : left < 32768)
    (hright : right < 32768) (h : op.onNumbers? left right = some result) : result < 32768 := by
  cases op with
  | equal | greater =>
    cases h
    split <;> decide
  | add | multiply =>
    cases h
    exact Nat.mod_lt _ (by decide)
  | modulo =>
    simp only [onNumbers?] at h
    split at h <;> cases h
    exact Nat.lt_of_le_of_lt (Nat.mod_le left right) hleft
  | and =>
    cases h
    exact Nat.lt_of_le_of_lt Nat.and_le_left hleft
  | or =>
    cases h
    exact Nat.or_lt_two_pow (n := 15) hleft hright

/-! ### Narrow states -/

/-- What a transition gives is below 32768, and it does not lead beyond the end of memory. -/
structure Transition.Narrow (t : Transition) : Prop where
  gives : ∀ gift ∈ t.gives, gift.2 < 32768
  goesOn : ∀ address, t.sequel = .goesOn address → address ≤ 32768

namespace Transition.Narrow

variable {takesTop takesByte : Bool} {recipient : Recipient} {value address : Nat}
  {writes : Option Nat}

private theorem of_gives (hvalue : value < 32768) (haddress : address ≤ 32768) :
    Transition.Narrow { takesTop, takesByte, gives := some (recipient, value),
                        sequel := .goesOn address } := by
  constructor
  · rintro _ ⟨⟩
    exact hvalue
  · rintro _ ⟨⟩
    exact haddress

private theorem of_goesOn (haddress : address ≤ 32768) :
    Transition.Narrow { takesTop, writes, sequel := .goesOn address } := by
  refine ⟨nofun, ?_⟩
  rintro _ ⟨⟩
  exact haddress

private theorem of_halts (reason : HaltReason) : Transition.Narrow { sequel := .halts reason } :=
  ⟨nofun, nofun⟩

end Transition.Narrow

namespace Snapshot

variable {s s' s'' : Snapshot} {t : Transition}

/-- Registers and stack hold nothing from 32768 on. -/
structure Narrow (s : Snapshot) : Prop where
  register : ∀ r, s.register r < 32768
  stack : ∀ word ∈ s.stack, word < 32768

private theorem Narrow.value_lt (h : s.Narrow) {operand : Operand}
    (hoperand : operand.IsEncodable) :
    s.value operand < 32768 := by
  cases operand with
  | literal value => exact hoperand
  | register r => exact h.register r

/-- The later of two states is narrow, what is wide in its memory was there before, and it has not
left memory. -/
structure StaysNarrow (s s' : Snapshot) : Prop where
  narrow : s'.Narrow
  /-- A wide cell holds what it held before. -/
  cell : ∀ address, 32768 ≤ s'.cell address → s'.cell address = s.cell address
  pc : s.pc ≤ 32768 → s'.pc ≤ 32768

namespace StaysNarrow

theorem refl (h : s.Narrow) : StaysNarrow s s := ⟨h, fun _ _ => rfl, id⟩

theorem trans (h : StaysNarrow s s') (h' : StaysNarrow s' s'') : StaysNarrow s s'' where
  narrow := h'.narrow
  cell address hwide := by
    have heq := h'.cell address hwide
    rw [heq] at hwide ⊢
    exact h.cell address hwide
  pc hpc := h'.pc (h.pc hpc)

/-- A machine that has not moved on is none the wider for it. -/
private theorem withPc (h : StaysNarrow s s') : StaysNarrow s { s' with pc := s.pc } :=
  ⟨⟨h.narrow.register, h.narrow.stack⟩, h.cell, id⟩

end StaysNarrow

/-- Giving a value below 32768 makes nothing wide. -/
private theorem Narrow.give (h : s.Narrow) {value : Nat} (hvalue : value < 32768)
    (recipient : Recipient) :
    StaysNarrow s (s.give value recipient) := by
  cases recipient with
  | register r =>
    refine ⟨⟨fun r' => ?_, h.stack⟩, fun _ _ => rfl, id⟩
    simp only [Snapshot.give, Function.update_apply]
    split
    · exact hvalue
    · exact h.register r'
  | cell address =>
    refine ⟨⟨h.register, h.stack⟩, fun a hwide => ?_, id⟩
    simp only [Snapshot.give, Function.update_apply] at hwide ⊢
    split
    · next heq =>
      rw [if_pos heq] at hwide
      exact absurd hvalue (Nat.not_lt.mpr hwide)
    · rfl
  | top => exact ⟨⟨h.register, List.forall_mem_cons.mpr ⟨hvalue, h.stack⟩⟩, fun _ _ => rfl, id⟩

/-- A narrow transition leads from narrow states to narrow states. -/
private theorem Narrow.after (h : s.Narrow) (ht : t.Narrow) : StaysNarrow s (s.after t) := by
  -- Apart from what is given, a transition at most takes something off, and moves on.
  have htaken : StaysNarrow s { s.after { t with gives := none } with } := by
    refine ⟨⟨h.register, fun word hmem => ?_⟩, fun _ _ => rfl, fun hpc => ?_⟩
    · have hmem : word ∈ if t.takesTop then s.stack.tail else s.stack := hmem
      split at hmem
      · exact h.stack word (List.mem_of_mem_tail hmem)
      · exact h.stack word hmem
    · simp only [Snapshot.after]
      cases hsequel : t.sequel with
      | goesOn address => exact ht.goesOn address hsequel
      | halts reason => exact hpc
  cases hgives : t.gives with
  | none =>
    have heq : { t with gives := none } = t := by rw [← hgives]
    rwa [heq] at htaken
  | some gift =>
    have heq : s.after t = (s.after { t with gives := none }).give gift.2 gift.1 := by
      simp only [Snapshot.after, hgives]
    rw [heq]
    exact htaken.trans (htaken.narrow.give (ht.gives gift hgives) gift.1)

end Snapshot

/-! ### Narrow instructions -/

namespace Instruction

variable {i : Instruction} {s : Snapshot} {t : Transition}

/-- In a narrow state an instruction has a narrow transition, unless it loads a wide word or calls
from the last two cells of memory. -/
theorem narrow_transition (h : s.Narrow) (hbytes : ∀ b ∈ s.unread, b < 32768)
    (hencodable : i.IsEncodable) (hend : s.pc + i.length ≤ 32768)
    (hload : ∀ target address, i = .load target address → s.cell (s.value address) < 32768)
    (hcall : ∀ destination, i = .call destination → s.pc ≠ 32766) (ht : i.transition s = .ok t) :
    t.Narrow := by
  have hvalue {operand : Operand} (hmem : operand ∈ i.operands) : s.value operand < 32768 :=
    h.value_lt (hencodable operand hmem)
  cases i with
  | halt =>
    cases ht
    exact .of_halts .instruction
  | set target source =>
    cases ht
    exact .of_gives (hvalue (.tail _ (.head _))) hend
  | push source =>
    cases ht
    exact .of_gives (hvalue (.head _)) hend
  | pop target =>
    simp only [transition] at ht
    split at ht <;> cases ht
    next top _ hstack => exact .of_gives (h.stack top (hstack ▸ .head _)) hend
  | binary op target left right =>
    simp only [transition] at ht
    split at ht <;> cases ht
    next hresult =>
      have hleft := hvalue (.tail _ (.head _))
      have hright := hvalue (.tail _ (.tail _ (.head _)))
      exact .of_gives (BinaryOp.onNumbers?_lt hleft hright hresult) hend
  | jump destination =>
    cases ht
    exact .of_goesOn (Nat.le_of_lt (hvalue (.head _)))
  | branch nonzero condition destination =>
    simp only [transition] at ht
    split at ht <;> cases ht
    · exact .of_goesOn (Nat.le_of_lt (hvalue (.tail _ (.head _))))
    · exact .of_goesOn hend
  | not target source =>
    cases ht
    exact .of_gives (by omega) hend
  | load target address =>
    simp only [transition] at ht
    split at ht <;> cases ht
    exact .of_gives (hload target address rfl) hend
  | store address source =>
    simp only [transition] at ht
    split at ht <;> cases ht
    exact .of_gives (hvalue (.tail _ (.head _))) hend
  | call destination =>
    cases ht
    have hreturn : s.pc + 2 ≤ 32768 := hend
    have hne := hcall destination rfl
    exact .of_gives (by omega) (Nat.le_of_lt (hvalue (.head _)))
  | ret =>
    simp only [transition] at ht
    split at ht <;> cases ht
    · exact .of_halts .emptyReturn
    · next top _ hstack => exact .of_goesOn (Nat.le_of_lt (h.stack top (hstack ▸ .head _)))
  | output source =>
    cases ht
    exact .of_goesOn hend
  | input target =>
    simp only [transition] at ht
    split at ht <;> cases ht
    next b _ hunread => exact .of_gives (hbytes b (hunread ▸ .head _)) hend
  | noop =>
    cases ht
    exact .of_goesOn hend

/-- In a narrow state no address is out of range. -/
private theorem transition_ne_addressOutOfRange (h : s.Narrow) (hencodable : i.IsEncodable)
    (address : Nat) : i.transition s ≠ .error (.addressOutOfRange address) := by
  have hvalue {operand : Operand} (hmem : operand ∈ i.operands) : s.value operand < 32768 :=
    h.value_lt (hencodable operand hmem)
  intro ht
  cases i with
  | load target address =>
    rw [transition, if_pos (hvalue (.tail _ (.head _)))] at ht
    cases ht
  | store address source =>
    rw [transition, if_pos (hvalue (.head _))] at ht
    cases ht
  | pop | binary | ret | input =>
    simp only [transition] at ht
    split at ht <;> cases ht
  | _ => cases ht

end Instruction

namespace Machine

open WordMachine.Action

variable {symbols : SymbolTable} {m m' done : Machine} {i : Instruction} {control : Control}

/-- A step from the machine carries out the instruction, whatever comes of the step afterwards. -/
def CarriesOut (symbols : SymbolTable) (m : Machine) (i : Instruction) : Prop :=
  (∃ length, m.fetch = .ok (i, length)) ∧ ∃ control done, carryOut symbols m = .ok control done

/-- A step from the machine loads no wide word, and does not call from the last two cells of
memory. -/
structure StepsNarrowly (symbols : SymbolTable) (m : Machine) : Prop where
  load : ∀ target address, CarriesOut symbols m (.load target address) →
    m.snapshot.cell (m.snapshot.value address) < 32768
  call : ∀ destination, CarriesOut symbols m (.call destination) → m.pc.toNat ≠ 32766

/-- An instruction that is carried out narrowly keeps the state narrow. -/
private theorem staysNarrow_of_carryOut (h : m.snapshot.Narrow) (hstep : StepsNarrowly symbols m)
    (hdone : carryOut symbols m = .ok control done) :
    Snapshot.StaysNarrow m.snapshot (done.proceeded control).snapshot := by
  obtain ⟨i, length, -, hfetch, -⟩ := exists_perform_of_carryOut hdone
  have hcarried : CarriesOut symbols m i := ⟨⟨length, hfetch⟩, control, done, hdone⟩
  obtain ⟨t, ht, hafter, -⟩ := followsTable_of_carryOut hfetch hdone
  rw [hafter]
  refine h.after (Instruction.narrow_transition h (fun b hb => ?_) (isEncodable_of_fetch hfetch)
    (pc_add_length_le hfetch) ?_ ?_ ht)
  · obtain ⟨byte, -, rfl⟩ := List.mem_map.mp hb
    exact byte.toNat_lt.trans (by decide)
  · rintro target address rfl
    exact hstep.load target address hcarried
  · rintro destination rfl
    exact hstep.call destination hcarried

/-- A step keeps the state narrow, whether it succeeds or fails. -/
private theorem staysNarrow_of_step (h : m.snapshot.Narrow) (hstep : StepsNarrowly symbols m) :
    Snapshot.StaysNarrow m.snapshot ((step symbols).after m).snapshot := by
  cases hresult : step symbols m with
  | ok control m' =>
    obtain ⟨done, hdone, hafter⟩ := exists_carryOut_of_step hresult
    rw [after_of_ok hresult, ← snapshot_eq_iff.mpr hafter.sameState]
    exact staysNarrow_of_carryOut h hstep hdone
  | error e m' =>
    rw [after_of_error hresult]
    obtain hfailed | ⟨control, done, hdone, hdump⟩ := step_eq_error_iff.mp hresult
    · rw [← snapshot_eq_iff.mpr (carryOut_error hfailed).1]
      exact .refl h
    · -- The instruction was carried out, but the machine has not moved on.
      obtain ⟨-, -, hpc, hsame⟩ := dump_error hdone hdump
      have hstays : done.snapshot.pc = m.snapshot.pc := congrArg UInt16.toNat (hsame.pc.trans hpc)
      have hsnapshot : m'.snapshot =
          { (done.proceeded control).snapshot with pc := m.snapshot.pc } := by
        rw [← snapshot_eq_iff.mpr hsame, ← hstays, proceeded]
        split <;> rfl
      rw [hsnapshot]
      exact (staysNarrow_of_carryOut h hstep hdone).withPc

/-- No step from a narrow state fails for an address that is out of range. -/
private theorem step_ne_addressOutOfRange (h : m.snapshot.Narrow) (pc address : Word)
    (failed : Machine) :
    step symbols m ≠ .error (.addressOutOfRange pc address) failed := by
  intro hstep
  obtain ⟨e, -, he, -⟩ | ⟨he, -⟩ | ⟨i, length, m₁, hfetch, -, -, herror⟩ :=
    exists_perform_of_step_error hstep
  · cases he
  · cases he
  · obtain ⟨heffect, -⟩ := eq_fault_of_perform_error herror trivial
    obtain ⟨fault, ht, hfault⟩ := transition_of_fault (toNat_next hfetch) heffect
    obtain ⟨-, rfl⟩ := Prod.mk.inj (Option.some.inj hfault)
    exact Instruction.transition_ne_addressOutOfRange h (isEncodable_of_fetch hfetch) _ ht

/-! ### The main result -/

/-- A run whose steps are narrow stays narrow from its first state to its last. -/
private theorem staysNarrow_of_loop (fuel : Nat) (h : m.snapshot.Narrow)
    (hsteps : ∀ s ∈ history symbols fuel m, StepsNarrowly symbols s) :
    Snapshot.StaysNarrow m.snapshot (loop symbols fuel m).1.snapshot := by
  refine history_induction (motive := fun m steps last =>
    m.snapshot.Narrow → (∀ s ∈ steps, StepsNarrowly symbols s) →
      Snapshot.StaysNarrow m.snapshot last.snapshot) ?_ ?_ fuel m h hsteps
  · exact fun m h _ => .refl h
  · intro m later last ih h hsteps
    have hfirst := staysNarrow_of_step h (hsteps m (.head _))
    exact hfirst.trans (ih hfirst.narrow fun s hs => hsteps s (.tail _ hs))

/-- **Runs stay narrow.** Take any run from a state whose registers and stack hold nothing from
32768 on, with any memory and any devices, in which no wide word is loaded and no call is carried
out from the last two cells of memory.

Then all its states are narrow. A cell of memory that is wide in one of them was so, with the same
content, in all states before. The program counter does not leave the range up to 32768, if it was
there, and no step fails for an address that is out of range. -/
theorem run_stays_narrow (symbols : SymbolTable) (m : Machine) (n : Nat) (h : m.snapshot.Narrow)
    (hsteps : ∀ s ∈ history symbols n m, StepsNarrowly symbols s) :
    (∀ j k, j ≤ k → k ≤ n →
      Snapshot.StaysNarrow (loop symbols j m).1.snapshot (loop symbols k m).1.snapshot) ∧
    (run symbols n m).1.snapshot = (loop symbols n m).1.snapshot ∧
    ∀ s ∈ history symbols n m, ∀ pc address failed,
      step symbols s ≠ .error (.addressOutOfRange pc address) failed := by
  have hreached (k : Nat) (hk : k ≤ n) : (loop symbols k m).1.snapshot.Narrow := by
    refine (staysNarrow_of_loop k h fun s hs => hsteps s ?_).narrow
    obtain ⟨i, hi, hloop⟩ := mem_history_iff.mp hs
    exact mem_history_iff.mpr ⟨i, Nat.lt_of_lt_of_le hi hk, hloop⟩
  refine ⟨fun j k hjk hk => ?_, ?_, fun s hs pc address failed => ?_⟩
  · obtain ⟨more, rfl⟩ := Nat.exists_eq_add_of_le hjk
    have hnarrow := hreached j (by omega)
    generalize hloop : loop symbols j m = reached at hnarrow ⊢
    obtain ⟨s, _ | result⟩ := reached
    · -- The loop goes on from the earlier state, and its history is part of the whole.
      rw [loop_add_of_none hloop]
      refine staysNarrow_of_loop more hnarrow fun s' hs' => hsteps s' ?_
      obtain ⟨i, hi, hloop'⟩ := mem_history_iff.mp hs'
      exact mem_history_iff.mpr ⟨j + i, by omega, (loop_add_of_none hloop i).trans hloop'⟩
    · rw [loop_add_of_some hloop]
      exact .refl hnarrow
  · rw [run]
    generalize loop symbols n m = reached
    obtain ⟨s, _ | result⟩ := reached
    · rfl
    · simp only [finish_eq]
      exact (snapshot_eq_iff.mpr (keeps_sameState_flush s)).symm
  · obtain ⟨k, hk, hloop⟩ := mem_history_iff.mp hs
    have hnarrow := hreached k (Nat.le_of_lt hk)
    rw [hloop] at hnarrow
    exact step_ne_addressOutOfRange hnarrow pc address failed

/-- Within the program, loaded memory holds its words. -/
private theorem read_ofImage {image : Image} {address : Word}
    (h : address.toNat < image.words.size) :
    (Memory.ofImage image).read address = .ok image.words[address.toNat] := by
  have hsize := image.size_le
  rw [Memory.read, dif_pos (Nat.lt_of_lt_of_le h hsize)]
  exact congrArg Except.ok (Array.getElem_append_left h)

/-- A program that loads the 9 at 7 and calls 5. The wide word at 1 names the register. -/
def loadImage : Image := ⟨#[15, 32768, 7, 17, 5, 0, 0, 9, 0], by decide⟩

/-- A machine that runs this program. -/
abbrev loading : Word → Stack → Word → Machine := stoppedIn loadImage

private theorem cell_of_read {address word : Word} (h : m.core.memory.read address = .ok word) :
    m.snapshot.cell address.toNat = word.toNat :=
  (Memory.read_eq_ok h).2.symm

/-- A load without a tracer. -/
private theorem step_load {target : Register} {address : Operand} {word : Word}
    (hfetch : m.fetch = .ok (.load target address, 3)) (htracer : m.tracer = none)
    (hread : m.core.memory.read (m.core.value address) = .ok word) :
    step symbols m = .ok ⟨none, m.pc + 3⟩
      { m with registers := m.registers.set target.val word, pc := m.pc + 3 } := by
  obtain ⟨memory, registers, stack, pc, input, output, tracer, haltAt, dealings⟩ := m
  cases htracer
  rw [step_apply, hfetch]
  simp only [Instruction.effect, hread]
  rfl

theorem run_stays_narrow_loading :
    (loading 0 [] 0).snapshot.Narrow ∧
      (∀ s ∈ history .empty 2 (loading 0 [] 0), StepsNarrowly .empty s) ∧
      loop .empty 2 (loading 0 [] 0) = (loading 9 [5] 5, none) ∧
      Snapshot.StaysNarrow (loading 0 [] 0).snapshot (loading 9 [5] 5).snapshot := by
  have hload : (loading 0 [] 0).fetch = .ok (.load 0 (.literal 7), 3) :=
    (fetch_stoppedIn (by decide)).trans rfl
  have hcall : (loading 9 [] 3).fetch = .ok (.call (.literal 5), 2) :=
    (fetch_stoppedIn (by decide)).trans rfl
  have hread : (loading 0 [] 0).core.memory.read 7 = .ok 9 := read_ofImage (by decide)
  have hloaded : step .empty (loading 0 [] 0) = .ok ⟨none, 3⟩ (loading 9 [] 3) :=
    step_load hload rfl hread
  have hcalled : step .empty (loading 9 [] 3) = .ok ⟨none, 5⟩ (loading 9 [5] 5) := by
    rw [step_apply, hcall]
    rfl
  have hone : loop .empty 1 (loading 0 [] 0) = (loading 9 [] 3, none) := by
    rw [loop_succ, hloaded]
    rfl
  have htwo : loop .empty 2 (loading 0 [] 0) = (loading 9 [5] 5, none) := by
    rw [loop_add_of_none hone 1, loop_succ, hcalled]
    rfl
  have hnarrow : (loading 0 [] 0).snapshot.Narrow := by
    refine ⟨fun r => ?_, nofun⟩
    revert r
    decide
  have hsteps : ∀ s ∈ history .empty 2 (loading 0 [] 0), StepsNarrowly .empty s := by
    intro s hs
    obtain ⟨k, hk, hloop⟩ := mem_history_iff.mp hs
    obtain rfl | rfl : k = 0 ∨ k = 1 := by omega
    · obtain ⟨rfl, -⟩ := Prod.mk.inj hloop
      constructor
      · rintro target address ⟨⟨length, hfetch⟩, -⟩
        cases hload.symm.trans hfetch
        exact (cell_of_read hread).trans_lt (by decide)
      · rintro destination ⟨⟨length, hfetch⟩, -⟩
        cases hload.symm.trans hfetch
    · obtain ⟨rfl, -⟩ := Prod.mk.inj (hone.symm.trans hloop)
      constructor
      · rintro target address ⟨⟨length, hfetch⟩, -⟩
        cases hcall.symm.trans hfetch
      · rintro - -
        decide
  obtain ⟨hstays, -⟩ := run_stays_narrow .empty (loading 0 [] 0) 2 hnarrow hsteps
  have hlast := hstays 0 2 (by decide) (by decide)
  rw [htwo] at hlast
  exact ⟨hnarrow, hsteps, htwo, hlast⟩

end Machine

end WordMachine
