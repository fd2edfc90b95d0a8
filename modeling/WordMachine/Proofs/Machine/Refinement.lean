import WordMachine.Proofs.Instruction.Decoding
import WordMachine.Proofs.Machine.Failure
import WordMachine.Proofs.Machine.Table
import WordMachine.Proofs.Machine.Transparency

/-!
# Steps follow the instruction table

A step that succeeds leads to the state that the table says, and a step that fails by a fault does
so where the table has no transition (`step_exact`). The table is in natural numbers, so this is
also where words that wrap round, 32-bit sums and products, and the devices behind input and output
are accounted for.

The case split over the instructions is made once, for their effects: each of them `Follows` the
table (`follows_effect`). From there on it is only a matter of what devices do.
-/

namespace WordMachine

private theorem Word.toNat_ofBool (b : Bool) : (Word.ofBool b).toNat = if b then 1 else 0 := by
  cases b <;> rfl

namespace Instruction

variable {i : Instruction} {core : Core} {pc next : Word}

/-- Only the instruction for input asks for a byte. -/
private theorem eq_input_of_receive {target : Register}
    (h : i.effect core pc next = .receive target) :
    i = .input target := by
  cases i with
  | input target =>
    cases h
    rfl
  | pop | binary | load | store | ret =>
    simp only [effect] at h
    split at h <;> cases h
  | _ => cases h

end Instruction

/-- Operations on words are those on numbers. -/
private theorem BinaryOp.map_toNat_eval? (op : BinaryOp) (left right : Word) :
    (op.eval? left right).map UInt16.toNat = op.onNumbers? left.toNat right.toNat := by
  cases op with
  | equal => simp [eval?, onNumbers?, Word.toNat_ofBool, UInt16.toNat_inj]
  | greater => simp [eval?, onNumbers?, Word.toNat_ofBool, UInt16.lt_iff_toNat_lt]
  | add =>
    rw [eval?, onNumbers?, Option.map_some, Word.toNat_wrapped, Word.toNat_add_toUInt32]
  | multiply =>
    rw [eval?, onNumbers?, Option.map_some, Word.toNat_wrapped, Word.toNat_mul_toUInt32]
  | modulo =>
    have hzero : right = 0 ↔ right.toNat = 0 := UInt16.toNat_inj.symm
    by_cases h : right = 0
    · simp [eval?, onNumbers?, h]
    · simp [eval?, onNumbers?, h, mt hzero.mpr h]
  | and => simp [eval?, onNumbers?]
  | or => simp [eval?, onNumbers?]

-- The largest product of two words, 4294836225, still fits.
example : BinaryOp.multiply.eval? 65535 65535 = some 1 := by decide

namespace Memory

variable {memory : Memory} {address word : Word}

theorem read_eq_ok (h : memory.read address = .ok word) :
    address.toNat < 32768 ∧ word.toNat = (memory.words[address.toNat]?.getD 0).toNat := by
  rw [read] at h
  split at h
  · next hholds =>
    cases h
    exact ⟨hholds, by simp [words, hholds]⟩
  · cases h

private theorem read_eq_error {e : AddressOutside} (h : memory.read address = .error e) :
    ¬ address.toNat < 32768 ∧ e = ⟨address⟩ := by
  rw [read] at h
  split at h
  · cases h
  · next hholds =>
    cases h
    exact ⟨hholds, rfl⟩

end Memory

namespace Machine

open WordMachine.Action

variable {symbols : SymbolTable} {m m' : Machine}

private theorem toNat_value (m : Machine) (operand : Operand) :
    (m.core.value operand).toNat = m.snapshot.value operand := by
  cases operand <;> rfl

/-! ### Snapshots of changed machines -/

private theorem snapshot_setRegister (core : Core) (target : Register) (value : Word) :
    (m.withCore (core.setRegister target value)).snapshot =
      (m.withCore core).snapshot.give value.toNat (.register target) := by
  refine Snapshot.ext rfl (funext fun r => ?_) rfl rfl rfl rfl
  simp only [snapshot, withCore, Core.setRegister, Snapshot.give, RegisterFile.get_set,
    Function.update_apply, Fin.val_inj, r.isLt, and_true, eq_comm, apply_ite UInt16.toNat]

private theorem snapshot_put (core : Core) {address : Word} (h : Memory.Holds address)
    (value : Word) :
    (m.withCore { core with memory := core.memory.put address value }).snapshot =
      (m.withCore core).snapshot.give value.toNat (.cell address.toNat) := by
  refine Snapshot.ext (funext fun a => ?_) rfl rfl rfl rfl rfl
  simp only [snapshot, withCore, Snapshot.give, Memory.words, Memory.put, Function.update_apply]
  by_cases ha : a = address.toNat
  · subst ha
    simp [h]
  · simp [ha, Ne.symm ha]

/-! ### Effects follow the table -/

/-- An effect in the machine `m` **follows** what the table says, where `next` is the address after
the instruction. -/
inductive Follows (m : Machine) (next : Word) : Effect → Except Fault Transition → Prop
  | fault {e : MachineError} {fault : Fault} (h : e.fault? = some (m.pc.toNat, fault)) :
      Follows m next (.fault e) (.error fault)
  | compute {core : Core} {control : Control} {transition : Transition}
      (hafter : ((m.withCore core).proceeded control).snapshot = m.snapshot.after transition)
      (hhalt : control.halt = transition.sequel.halt?) :
      Follows m next (.compute core control) (.ok transition)
  | emit (b : UInt8) :
      Follows m next (.emit b) (.ok { writes := some b.toNat, sequel := .goesOn next.toNat })
  | receive (target : Register) :
      Follows m next (.receive target)
        (match m.snapshot.unread with
        | [] => .error .noInput
        | b :: _ =>
          .ok { takesByte := true, gives := some (.register target, b),
                sequel := .goesOn next.toNat })

section

variable {next address value : Word}

private theorem proceeded_withCore (m : Machine) (core : Core) (control : Control) :
    (m.withCore core).proceeded control = (m.proceeded control).withCore core := by
  rw [proceeded, proceeded]
  split <;> rfl

private theorem Follows.goesOn :
    Follows m next (.compute m.core ⟨none, address⟩)
      (.ok { sequel := .goesOn address.toNat }) := by
  refine .compute ?_ rfl
  rw [Snapshot.after_goesOn]
  rfl

private theorem Follows.halts (reason : HaltReason) :
    Follows m next (.compute m.core ⟨some reason, address⟩)
      (.ok { sequel := .halts reason }) := by
  refine .compute ?_ rfl
  rw [Snapshot.after_halts]
  rfl

private theorem Follows.register {target : Register} :
    Follows m next (.compute (m.core.setRegister target value) ⟨none, address⟩)
      (.ok { gives := some (.register target, value.toNat),
             sequel := .goesOn address.toNat }) := by
  refine .compute ?_ rfl
  rw [proceeded_withCore, snapshot_setRegister, Snapshot.after_gives]
  rfl

private theorem Follows.push :
    Follows m next (.compute { m.core with stack := value :: m.core.stack } ⟨none, address⟩)
      (.ok { gives := some (.top, value.toNat), sequel := .goesOn address.toNat }) := by
  refine .compute ?_ rfl
  rw [Snapshot.after_gives]
  rfl

end

/-- The effect of every instruction follows the table. -/
theorem follows_effect {next : Word} (i : Instruction)
    (hnext : next.toNat = m.pc.toNat + i.length) :
    Follows m next (i.effect m.core m.pc next) (i.transition m.snapshot) := by
  have hgoesOn : Sequel.goesOn (m.snapshot.pc + i.length) = .goesOn next.toNat :=
    congrArg Sequel.goesOn hnext.symm
  have hstack : m.snapshot.stack = m.core.stack.map UInt16.toNat := rfl
  cases i with
  | halt => exact .halts .instruction
  | set target source =>
    rw [Instruction.transition, hgoesOn, ← toNat_value]
    exact .register
  | push source =>
    rw [Instruction.transition, hgoesOn, ← toNat_value]
    exact .push
  | pop target =>
    simp only [Instruction.effect, Instruction.transition, hgoesOn, hstack]
    cases htop : m.core.stack with
    | nil => exact .fault rfl
    | cons top rest =>
      refine .compute ?_ rfl
      rw [proceeded_withCore, snapshot_setRegister, Snapshot.after_gives, hstack, htop]
      rfl
  | binary op target left right =>
    have hop := op.map_toNat_eval? (m.core.value left) (m.core.value right)
    simp only [Instruction.effect, Instruction.transition, hgoesOn, ← toNat_value, ← hop]
    cases op.eval? (m.core.value left) (m.core.value right) with
    | none => exact .fault rfl
    | some result => exact .register
  | jump destination =>
    rw [Instruction.transition, ← toNat_value]
    exact .goesOn
  | branch nonzero condition destination =>
    have htaken : (m.core.value condition != 0) = nonzero ↔
        ((m.core.value condition).toNat ≠ 0 ↔ nonzero = true) := by
      rw [Bool.eq_iff_iff, bne_iff_ne]
      exact iff_congr (not_congr UInt16.toNat_inj.symm) Iff.rfl
    simp only [Instruction.effect, Instruction.transition, hgoesOn, ← toNat_value]
    by_cases hif : (m.core.value condition != 0) = nonzero
    · rw [if_pos hif, if_pos (htaken.mp hif)]
      exact .goesOn
    · rw [if_neg hif, if_neg (mt htaken.mpr hif)]
      exact .goesOn
  | not target source =>
    rw [Instruction.transition, hgoesOn, ← toNat_value, ← Word.toNat_complement]
    exact .register
  | load target address =>
    simp only [Instruction.effect, Instruction.transition, hgoesOn, ← toNat_value]
    cases hread : m.core.memory.read (m.core.value address) with
    | error outside =>
      obtain ⟨hge, rfl⟩ := Memory.read_eq_error hread
      rw [if_neg hge]
      exact .fault rfl
    | ok word =>
      obtain ⟨hlt, hword⟩ := Memory.read_eq_ok hread
      have hcell : m.snapshot.cell (m.core.value address).toNat = word.toNat := hword.symm
      rw [if_pos hlt, hcell]
      exact .register
  | store address source =>
    simp only [Instruction.effect, Instruction.transition, hgoesOn, ← toNat_value, Memory.write]
    by_cases hlt : (m.core.value address).toNat < 32768
    · rw [if_pos (show Memory.Holds _ from hlt), if_pos hlt]
      refine .compute ?_ rfl
      rw [proceeded_withCore, snapshot_put _ hlt, Snapshot.after_gives]
      rfl
    · rw [if_neg (show ¬ Memory.Holds _ from hlt), if_neg hlt]
      exact .fault rfl
  | call destination =>
    have hreturn : m.snapshot.pc + 2 = next.toNat := hnext.symm
    rw [Instruction.transition, hreturn, ← toNat_value]
    exact .push
  | ret =>
    simp only [Instruction.effect, Instruction.transition, hstack]
    cases htop : m.core.stack with
    | nil => exact .halts .emptyReturn
    | cons top rest =>
      refine .compute ?_ rfl
      rw [Snapshot.after_goesOn, hstack, htop]
      rfl
  | output source =>
    rw [Instruction.transition, hgoesOn, ← toNat_value, ← UInt16.toNat_toUInt8]
    exact .emit _
  | input target =>
    rw [Instruction.transition, hgoesOn]
    exact .receive target
  | noop =>
    rw [Instruction.transition, hgoesOn]
    exact .goesOn

/-! ### Devices -/

/-- A byte that is written comes after those written before, and nothing else changes. -/
private theorem snapshot_writeByte {b : UInt8} (h : writeByte b m = .ok () m') :
    m'.snapshot = { m.snapshot with written := m.snapshot.written ++ [b.toNat] } := by
  rw [writeByte_apply] at h
  split at h <;> cases h
  refine Snapshot.ext rfl rfl rfl rfl rfl ?_
  simp [snapshot, written, Event.written?]

/-- A read takes the byte that it gives off the front of those unread, and changes nothing else. -/
private theorem snapshot_readByte {pc : Word} {b : UInt8} (h : readByte pc m = .ok b m') :
    ∃ rest, m.snapshot.unread = b.toNat :: rest ∧
      m'.snapshot = { m.snapshot with unread := rest } := by
  have hunread := m.input.unread_request
  rw [readByte_apply] at h
  split at h <;> cases h
  next hanswer =>
    rw [hanswer] at hunread
    refine ⟨m.input.request.rest.unread.map UInt8.toNat,
      congrArg (List.map UInt8.toNat) hunread, ?_⟩
    have hwritten : { m.requested with journal := m.requested.journal.push (.received b) }.written =
        m.written := by
      simpa [written, Event.written?, List.filterMap_cons] using m.written_requested
    exact Snapshot.ext rfl rfl rfl rfl rfl (congrArg (List.map UInt8.toNat) hwritten)

/-- What comes of reading a byte into a register, if the byte is there. -/
private theorem snapshot_receive {target : Register} {next : Word} {control : Control}
    (h : perform m.pc next (.receive target) m = .ok control m') :
    control = ⟨none, next⟩ ∧ ∃ b rest, m.snapshot.unread = b :: rest ∧
      m'.snapshot = { m.snapshot with unread := rest }.give b (.register target) := by
  obtain ⟨_, m₁, hflush, h⟩ := bind_eq_ok_iff.mp h
  obtain ⟨b, m₂, hread, h⟩ := bind_eq_ok_iff.mp h
  cases h
  have hsame : m.snapshot = m₁.snapshot := snapshot_eq_iff.mpr (keeps_sameState_flush.of_ok hflush)
  obtain ⟨rest, hunread, hrest⟩ := snapshot_readByte hread
  rw [← hsame] at hunread hrest
  refine ⟨rfl, b.toNat, rest, hunread, ?_⟩
  have hset : (m₂.withCore (m₂.core.setRegister target b.toUInt16)).snapshot =
      { m.snapshot with unread := rest }.give b.toUInt16.toNat (.register target) := by
    rw [snapshot_setRegister, withCore_core, hrest]
  rw [UInt8.toNat_toUInt16] at hset
  exact hset

/-! ### Instructions as a whole -/

/-- The machine and the control that come of an instruction are what its transition in the table
leads to. -/
def FollowsTable (m : Machine) (i : Instruction) (control : Control) (m' : Machine) : Prop :=
  ∃ t, i.transition m.snapshot = .ok t ∧ m'.snapshot = m.snapshot.after t ∧
    control.halt = t.sequel.halt?

/-- Only the states of the machines count for that. -/
theorem FollowsTable.congr {m₁ m₁' : Machine} {i : Instruction} {control : Control}
    (h : FollowsTable m₁ i control m₁') (hm : m.SameState m₁) (hm' : m₁'.SameState m') :
    FollowsTable m i control m' := by
  rw [FollowsTable, snapshot_eq_iff.mpr hm, ← snapshot_eq_iff.mpr hm']
  exact h

/-- An instruction that takes effect follows the table. -/
theorem followsTable_of_perform {i : Instruction} {next : Word} {control : Control}
    (hnext : next.toNat = m.pc.toNat + i.length)
    (h : perform m.pc next (i.effect m.core m.pc next) m = .ok control m') :
    FollowsTable m i control (m'.proceeded control) := by
  have hfollows := follows_effect i hnext
  rw [FollowsTable]
  generalize i.effect m.core m.pc next = effect at h hfollows
  generalize i.transition m.snapshot = transition at hfollows ⊢
  cases hfollows with
  | fault => cases h
  | compute hafter hhalt =>
    cases h
    exact ⟨_, rfl, hafter, hhalt⟩
  | emit b =>
    obtain ⟨_, m₁, hwrite, h⟩ := bind_eq_ok_iff.mp h
    cases h
    refine ⟨_, rfl, ?_, rfl⟩
    rw [Snapshot.after_writes]
    exact congrArg (fun s : Snapshot => { s with pc := next.toNat }) (snapshot_writeByte hwrite)
  | receive target =>
    obtain ⟨rfl, b, rest, hunread, hrest⟩ := snapshot_receive h
    rw [hunread]
    refine ⟨_, rfl, ?_, rfl⟩
    rw [Snapshot.after_gives, hunread]
    exact congrArg (fun s : Snapshot => { s with pc := next.toNat }) hrest

/-- An instruction that is at fault has no transition in the table. -/
theorem transition_of_fault {i : Instruction} {next : Word} {e : MachineError}
    (hnext : next.toNat = m.pc.toNat + i.length) (h : i.effect m.core m.pc next = .fault e) :
    ∃ fault, i.transition m.snapshot = .error fault ∧ e.fault? = some (m.pc.toNat, fault) := by
  have hfollows := follows_effect i hnext
  rw [h] at hfollows
  generalize i.transition m.snapshot = transition at hfollows ⊢
  cases hfollows with
  | fault hfault => exact ⟨_, rfl, hfault⟩

/-- What is fetched does not reach beyond memory, so the address after it can be told. -/
theorem toNat_next {i : Instruction} {length : Nat} (hfetch : m.fetch = .ok (i, length)) :
    (m.pc + UInt16.ofNat length).toNat = m.pc.toNat + i.length := by
  rw [fetch, Instruction.decode_eq, Instruction.ofWords_eq_ok_iff] at hfetch
  obtain ⟨-, rfl, hwords⟩ := hfetch
  have hle : i.length ≤ memorySize - m.pc.toNat := by
    simpa using hwords.length_le
  have hpos := i.length_pos
  rw [UInt16.toNat_add, UInt16.toNat_ofNat']
  simp only [memorySize] at hle
  omega

/-- An effect that fails by a fault is that fault, and leaves the machine alone. -/
theorem eq_fault_of_perform_error {pc next : Word} {effect : Effect} {e : MachineError}
    (h : perform pc next effect m = .error e m') (hfault : e.IsFault) :
    effect = .fault e ∧ m' = m := by
  obtain heffect | ⟨_, rfl⟩ | ⟨target, -, hread⟩ := perform_error_cases h
  · exact heffect
  · exact hfault.elim
  · obtain ⟨-, ⟨rfl, -⟩ | rfl | rfl⟩ := readByte_error hread <;> exact hfault.elim

/-- The tracer takes every line, the output takes a byte and can be flushed, and if the instruction
asks for a byte of input it is given one. -/
structure Obliging (m : Machine) (i : Instruction) : Prop where
  lines : m.TakesLines
  takes : m.output.takes m.output.offered = true
  flushes : m.output.flushes m.output.flushed = true
  answers : ∀ target, i = .input target → ∃ b, m.input.request.answer = .byte b

private theorem exists_perform_of_obliging {i : Instruction} {next : Word} (h : m.Obliging i)
    (hfault : ∀ e, i.effect m.core m.pc next ≠ .fault e) :
    ∃ control done, perform m.pc next (i.effect m.core m.pc next) m = .ok control done := by
  cases heffect : i.effect m.core m.pc next with
  | fault e => exact absurd heffect (hfault e)
  | compute core control => exact ⟨_, _, rfl⟩
  | emit b =>
    rw [perform, bind_apply, writeByte_apply, if_pos h.takes]
    exact ⟨_, _, rfl⟩
  | receive target =>
    obtain ⟨b, hb⟩ := h.answers target (Instruction.eq_input_of_receive heffect)
    rw [perform, bind_apply, flush_apply, if_pos h.flushes]
    dsimp only
    rw [bind_apply, readByte_apply, hb]
    exact ⟨_, _, rfl⟩

/-- Where the devices oblige, a step succeeds unless its instruction is at fault. -/
theorem exists_step_of_obliging {i : Instruction} {length : Nat}
    (hfetch : m.fetch = .ok (i, length)) (h : m.Obliging i)
    (hfault : ∀ e, i.effect m.core m.pc (m.pc + UInt16.ofNat length) ≠ .fault e) :
    ∃ control m', step symbols m = .ok control m' := by
  -- Without a tracer it is the effect that may fail, and with it the step is in lockstep.
  have hmatch := lockstep_step symbols h.lines.tracedAlike
  have huntraced : m.untraced.Obliging i := { h with lines := nofun }
  obtain ⟨control, done, hdone⟩ := exists_perform_of_obliging huntraced hfault
  generalize step symbols m = outcome at hmatch
  generalize hstep : step symbols m.untraced = outcome' at hmatch
  cases hmatch with
  | ok control _ => exact ⟨_, _, rfl⟩
  | excused he => exact he.elim
  | error e _ =>
    obtain ⟨_, hfetch', -⟩ | ⟨-, htraced⟩ | ⟨j, length', _, hfetch', -, hsame, herror⟩ :=
      exists_perform_of_step_error hstep
    · cases hfetch.symm.trans hfetch'
    · exact absurd rfl htraced
    · cases hfetch.symm.trans hfetch'
      rw [hsame rfl] at herror
      cases hdone.symm.trans herror

/-- A step does not change where the machine is to stop. -/
private theorem haltAt_of_step {control : Control} (h : step symbols m = .ok control m') :
    m'.haltAt = m.haltAt := by
  obtain ⟨i, length, m₁, done, -, hbefore, hdone, hafter⟩ := exists_perform_of_step h
  have horders : m₁.orders = done.orders := (keeps_orders_perform _ _ _).of_ok hdone
  have hproceeded : (done.proceeded control).haltAt = done.haltAt := by
    rw [proceeded]
    split <;> rfl
  calc m'.haltAt = (done.proceeded control).haltAt := hafter.haltAt.symm
    _ = done.haltAt := hproceeded
    _ = m₁.haltAt := (congrArg (·.2.1) horders).symm
    _ = m.haltAt := hbefore.haltAt.symm

/-! ### The main result -/

/-- **Steps follow the instruction table.** Take any machine that stands at an instruction, with any
contents of memory, registers and stack and any devices.

A step that succeeds leads to the state that the table says, in numbers, with no other change, and
it halts when the table says so; of all registers, cells and the top of the stack at most one is
given a value. A step that fails by a fault leaves the state as it was, and the table has that fault
and no transition. If the devices do what the instruction asks of them, the step succeeds exactly if
the table has a transition. In 32 bits no sum and no product of two words is lost on the way. -/
theorem step_exact (symbols : SymbolTable) (m : Machine) (i : Instruction) (length : Nat)
    (hfetch : m.fetch = .ok (i, length)) :
    (∀ control m', step symbols m = .ok control m' →
      FollowsTable m i control m' ∧ m'.haltAt = m.haltAt ∧
        ∃ recipient, m.snapshot.DiffersAt recipient m'.snapshot) ∧
    (∀ e m', step symbols m = .error e m' → e.IsFault →
      m'.snapshot = m.snapshot ∧ ∃ fault, i.transition m.snapshot = .error fault ∧
        e.fault? = some (m.pc.toNat, fault)) ∧
    (m.Obliging i →
      ((∃ control m', step symbols m = .ok control m') ↔
        ∃ t, i.transition m.snapshot = .ok t)) ∧
    ∀ left right : Word, (left.toUInt32 + right.toUInt32).toNat = left.toNat + right.toNat ∧
      (left.toUInt32 * right.toUInt32).toNat = left.toNat * right.toNat := by
  have hsucceeds (control : Control) (m' : Machine) (h : step symbols m = .ok control m') :
      FollowsTable m i control m' := by
    obtain ⟨j, n, m₁, done, hfetch', hbefore, hdone, hafter⟩ := exists_perform_of_step h
    cases hfetch.symm.trans hfetch'
    have hnext := toNat_next hfetch
    rw [hbefore.core_eq, hbefore.pc] at hdone
    rw [hbefore.pc] at hnext
    exact (followsTable_of_perform hnext hdone).congr hbefore.sameState hafter.sameState
  refine ⟨fun control m' h => ?_, fun e m' h hfault => ?_, fun hobliging => ⟨?_, ?_⟩,
    fun left right => ?_⟩
  · obtain ⟨t, ht, hafter, hhalt⟩ := hsucceeds control m' h
    exact ⟨⟨t, ht, hafter, hhalt⟩, haltAt_of_step h, _, hafter ▸ m.snapshot.differsAt_after t⟩
  · obtain ⟨_, hfetch', -⟩ | ⟨rfl, -⟩ | ⟨j, n, m₁, hfetch', hbefore, -, herror⟩ :=
      exists_perform_of_step_error h
    · cases hfetch.symm.trans hfetch'
    · exact hfault.elim
    · cases hfetch.symm.trans hfetch'
      obtain ⟨heffect, rfl⟩ := eq_fault_of_perform_error herror hfault
      exact ⟨(snapshot_eq_iff.mpr hbefore.sameState).symm,
        transition_of_fault (toNat_next hfetch) heffect⟩
  · rintro ⟨control, m', h⟩
    obtain ⟨t, ht, -⟩ := hsucceeds control m' h
    exact ⟨t, ht⟩
  · rintro ⟨t, ht⟩
    refine exists_step_of_obliging hfetch hobliging fun e heffect => ?_
    obtain ⟨fault, herror, -⟩ := transition_of_fault (toNat_next hfetch) heffect
    cases ht.symm.trans herror
  · exact ⟨Word.toNat_add_toUInt32 left right, Word.toNat_mul_toUInt32 left right⟩

/-- A program that adds 4 to a register. -/
def addImage : Image := ⟨#[9, 32768, 32768, 4], by decide⟩

/-- A machine that is about to add to the largest content of a register. -/
def adding : Machine := { ofImage addImage with registers := RegisterFile.zero.set 0 65535 }

theorem step_exact_adding :
    adding.fetch = .ok (.binary .add 0 (.register 0) (.literal 4), 4) ∧
      ∃ control m', step .empty adding = .ok control m' ∧
        m'.snapshot = { adding.snapshot with pc := 4 }.give 3 (.register 0) := by
  have hmemory : adding.memory = .ofImage addImage := rfl
  have hpc : adding.pc = 0 := rfl
  have hfetch : adding.fetch = .ok (.binary .add 0 (.register 0) (.literal 4), 4) := by
    rw [fetch_of_image hmemory (Nat.le_refl 4), hpc]
    rfl
  have hobliging : adding.Obliging (.binary .add 0 (.register 0) (.literal 4)) :=
    ⟨nofun, rfl, rfl, nofun⟩
  have htransition :
      (Instruction.binary .add 0 (.register 0) (.literal 4)).transition adding.snapshot =
        .ok { gives := some (.register 0, 3), sequel := .goesOn 4 } := rfl
  obtain ⟨hsucceeds, -, hiff, -⟩ := step_exact .empty adding _ _ hfetch
  obtain ⟨control, m', hstep⟩ := (hiff hobliging).mpr ⟨_, htransition⟩
  refine ⟨hfetch, control, m', hstep, ?_⟩
  obtain ⟨⟨t, ht, hafter, -⟩, -⟩ := hsucceeds control m' hstep
  cases htransition.symm.trans ht
  rw [hafter, Snapshot.after_gives]
  rfl

end Machine

end WordMachine
