import Mathlib.Data.List.Basic
import WordMachine.Instruction

/-!
# What decoding accepts and refuses

An operand word is **accepted** in its position when it is a literal or names a register, and names
a register where the result goes. Operands are read one by one from the left (`operandsFrom`), and
so the first word that is not accepted decides what is wrong.

* `ofWords_eq_ok_iff`: an instruction is read exactly from the lists that begin with its words.
* `ofWords_eq_error_iff`: `Misread` lists what can be wrong, in the order in which it is noticed.
* `decode_exact`: both, for a position in a longer stream.
-/

namespace WordMachine

namespace Opcode

/-- Whether instructions with this opcode put a result into a register. -/
def hasResult : Opcode → Bool
  | set | pop | binary _ | not | load | input => true
  | halt | push | jump | branch _ | store | call | ret | output | noop => false

/-- Whether the operand in this position is the one that takes the result. -/
def isResult (opcode : Opcode) (position : Nat) : Bool := position == 0 && opcode.hasResult

/-- A word that may stand in an operand position is a literal or names a register. Where the result
goes it names a register. -/
def Accepts (opcode : Opcode) (position : Nat) (w : Word) : Prop :=
  w.toNat ≤ 32775 ∧ (opcode.isResult position = true → 32768 ≤ w.toNat)

/-- The operand that a word in an operand position stands for. -/
def operandAt (opcode : Opcode) (position : Nat) (w : Word) : Except DecodeError Operand :=
  if opcode.isResult position then
    Operand.register <$> Instruction.resultRegister opcode position w
  else Operand.ofWord w

/-- The operands that words stand for, the first of them in position `position`. -/
def operandsFrom (opcode : Opcode) (position : Nat) :
    List Word → Except DecodeError (List Operand)
  | [] => .ok []
  | w :: rest => do
    return (← opcode.operandAt position w) :: (← opcode.operandsFrom (position + 1) rest)

end Opcode

/-! ### One operand -/

theorem Operand.ofWord_eq_ok_iff {w : Word} {operand : Operand} :
    ofWord w = .ok operand ↔ operand.toWord = w ∧ operand.IsEncodable := by
  refine ⟨toWord_of_ofWord, ?_⟩
  rintro ⟨rfl, h⟩
  exact ofWord_toWord h

theorem Operand.ofWord_eq_error_iff {w : Word} {e : DecodeError} :
    ofWord w = .error e ↔ 32775 < w.toNat ∧ e = .invalidOperand w := by
  rw [ofWord]
  split
  · simp only [reduceCtorEq, false_iff, not_and]
    omega
  · split
    · simp only [reduceCtorEq, false_iff, not_and]
      omega
    · have hlt : 32775 < w.toNat := by omega
      simp only [Except.error.injEq, hlt, true_and]
      exact eq_comm

namespace Instruction

variable {opcode : Opcode} {position : Nat} {w : Word} {e : DecodeError}

theorem resultRegister_eq_ok_iff {r : Register} :
    resultRegister opcode position w = .ok r ↔ (Operand.register r).toWord = w := by
  refine ⟨toWord_of_resultRegister, ?_⟩
  rintro rfl
  exact resultRegister_register opcode position r

theorem resultRegister_eq_error_iff :
    resultRegister opcode position w = .error e ↔
      (w.toNat < 32768 ∧ e = .notARegister opcode position w) ∨
        (32775 < w.toNat ∧ e = .invalidOperand w) := by
  rw [resultRegister]
  cases h : Operand.ofWord w with
  | error e' =>
    obtain ⟨hlt, rfl⟩ := Operand.ofWord_eq_error_iff.mp h
    have hge : ¬ w.toNat < 32768 := by omega
    simp only [Except.error.injEq, hge, hlt, false_and, true_and, false_or]
    exact eq_comm
  | ok operand =>
    obtain ⟨rfl, hencodable⟩ := Operand.ofWord_eq_ok_iff.mp h
    cases operand with
    | literal value =>
      have hlt : value.toNat < 32768 := hencodable
      have hle : ¬ 32775 < value.toNat := by omega
      simp only [Operand.toWord, Except.error.injEq, hlt, hle, true_and, false_and, or_false]
      exact eq_comm
    | register r =>
      have hr := Operand.toNat_toWord_register r
      simp only [reduceCtorEq, false_iff, hr]
      omega

end Instruction

namespace Opcode

variable {opcode : Opcode} {position : Nat} {w : Word} {operand : Operand} {e : DecodeError}

theorem operandAt_eq_ok_iff :
    opcode.operandAt position w = .ok operand ↔
      operand.toWord = w ∧ operand.IsEncodable ∧
        (opcode.isResult position = true → ∃ r, operand = .register r) := by
  rw [operandAt]
  cases opcode.isResult position with
  | false => simp [Operand.ofWord_eq_ok_iff]
  | true =>
    have hmap : Operand.register <$> Instruction.resultRegister opcode position w = .ok operand ↔
        ∃ r, Instruction.resultRegister opcode position w = .ok r ∧ .register r = operand := by
      cases Instruction.resultRegister opcode position w <;> simp [Functor.map, Except.map]
    simp only [if_true, hmap, Instruction.resultRegister_eq_ok_iff, true_imp_iff]
    constructor
    · rintro ⟨r, rfl, rfl⟩
      exact ⟨rfl, trivial, r, rfl⟩
    · rintro ⟨rfl, -, r, rfl⟩
      exact ⟨r, rfl, rfl⟩

/-- What can be wrong with one operand word. -/
theorem operandAt_eq_error_iff :
    opcode.operandAt position w = .error e ↔
      (32775 < w.toNat ∧ e = .invalidOperand w) ∨
        (opcode.isResult position = true ∧ w.toNat < 32768 ∧
          e = .notARegister opcode position w) := by
  rw [operandAt]
  cases opcode.isResult position with
  | false => simp [Operand.ofWord_eq_error_iff]
  | true =>
    have hmap : Operand.register <$> Instruction.resultRegister opcode position w = .error e ↔
        Instruction.resultRegister opcode position w = .error e := by
      cases Instruction.resultRegister opcode position w <;> simp [Functor.map, Except.map]
    simp only [if_true, hmap, Instruction.resultRegister_eq_error_iff, true_and]
    exact or_comm

/-- The accepted words are those that stand for an operand. -/
theorem accepts_iff :
    opcode.Accepts position w ↔ ∃ operand, opcode.operandAt position w = .ok operand := by
  cases h : opcode.operandAt position w with
  | ok operand =>
    refine iff_of_true ⟨Nat.le_of_not_lt fun hgt => ?_, fun hresult => ?_⟩ ⟨operand, rfl⟩
    · rw [operandAt_eq_error_iff.mpr (.inl ⟨hgt, rfl⟩)] at h
      cases h
    · refine Nat.le_of_not_lt fun hlt => ?_
      rw [operandAt_eq_error_iff.mpr (.inr ⟨hresult, hlt, rfl⟩)] at h
      cases h
  | error e =>
    refine iff_of_false ?_ nofun
    rintro ⟨hle, hge⟩
    obtain ⟨hgt, -⟩ | ⟨hresult, hlt, -⟩ := operandAt_eq_error_iff.mp h
    · omega
    · have := hge hresult
      omega

/-! ### All operands -/

variable {rest : List Word} {operands : List Operand} {head : Word}

private theorem operandsFrom_cons_eq_ok_iff :
    opcode.operandsFrom position (head :: rest) = .ok operands ↔
      ∃ operand tail, operands = operand :: tail ∧
        opcode.operandAt position head = .ok operand ∧
          opcode.operandsFrom (position + 1) rest = .ok tail := by
  simp only [operandsFrom, bind, Except.bind, pure, Except.pure]
  cases opcode.operandAt position head with
  | error e => simp
  | ok operand =>
    cases opcode.operandsFrom (position + 1) rest with
    | error e => simp
    | ok tail => simp [eq_comm]

private theorem operandsFrom_cons_eq_error_iff :
    opcode.operandsFrom position (head :: rest) = .error e ↔
      opcode.operandAt position head = .error e ∨
        opcode.Accepts position head ∧ opcode.operandsFrom (position + 1) rest = .error e := by
  simp only [accepts_iff, operandsFrom, bind, Except.bind, pure, Except.pure]
  cases opcode.operandAt position head with
  | error e => simp
  | ok operand => cases opcode.operandsFrom (position + 1) rest <;> simp

/-- Operands are read exactly from their words, if each of them may stand in its position. -/
theorem operandsFrom_eq_ok_iff :
    opcode.operandsFrom position rest = .ok operands ↔
      operands.map Operand.toWord = rest ∧ (∀ operand ∈ operands, operand.IsEncodable) ∧
        ∀ k operand, operands[k]? = some operand → opcode.isResult (position + k) = true →
          ∃ r, operand = .register r := by
  induction rest generalizing position operands with
  | nil =>
    simp only [operandsFrom, Except.ok.injEq, List.map_eq_nil_iff]
    constructor
    · rintro rfl
      simp
    · rintro ⟨rfl, -⟩
      rfl
  | cons head rest ih =>
    simp only [operandsFrom_cons_eq_ok_iff, operandAt_eq_ok_iff, ih]
    constructor
    · rintro ⟨operand, tail, rfl, ⟨rfl, hencodable, hresult⟩, rfl, hencodable', hresult'⟩
      refine ⟨rfl, List.forall_mem_cons.mpr ⟨hencodable, hencodable'⟩, fun k => ?_⟩
      cases k with
      | zero => simpa using hresult
      | succ k => simpa [Nat.add_assoc, Nat.add_comm 1] using hresult' k
    · rintro ⟨hwords, hencodable, hresult⟩
      obtain ⟨operand, tail, rfl, rfl, rfl⟩ := List.map_eq_cons_iff.mp hwords
      obtain ⟨hencodable, hencodable'⟩ := List.forall_mem_cons.mp hencodable
      refine ⟨operand, tail, rfl, ⟨rfl, hencodable, hresult 0 operand rfl⟩, rfl, hencodable',
        fun k operand hk => ?_⟩
      have := hresult (k + 1) operand hk
      rwa [← Nat.add_assoc, Nat.add_right_comm] at this

/-- Operands cannot be read when some word is not accepted, and the first such word decides why. -/
theorem operandsFrom_eq_error_iff :
    opcode.operandsFrom position rest = .error e ↔
      ∃ k w, rest[k]? = some w ∧ opcode.operandAt (position + k) w = .error e ∧
        ∀ j < k, ∀ w', rest[j]? = some w' → opcode.Accepts (position + j) w' := by
  induction rest generalizing position with
  | nil => simp [operandsFrom]
  | cons head rest ih =>
    rw [operandsFrom_cons_eq_error_iff, ih]
    constructor
    · rintro (hhead | ⟨haccepts, k, w, hk, hw, hbefore⟩)
      · exact ⟨0, head, rfl, hhead, nofun⟩
      · refine ⟨k + 1, w, hk, ?_, fun j hj w' hw' => ?_⟩
        · rwa [← Nat.add_assoc, Nat.add_right_comm]
        · cases j with
          | zero =>
            cases hw'
            exact haccepts
          | succ j =>
            have := hbefore j (Nat.lt_of_succ_lt_succ hj) w' hw'
            rwa [← Nat.add_assoc, Nat.add_right_comm]
    · rintro ⟨k, w, hk, hw, hbefore⟩
      cases k with
      | zero =>
        cases hk
        exact .inl hw
      | succ k =>
        refine .inr ⟨hbefore 0 (Nat.succ_pos k) head rfl, k, w, hk, ?_, fun j hj w' hw' => ?_⟩
        · rwa [← Nat.add_assoc, Nat.add_right_comm] at hw
        · have := hbefore (j + 1) (Nat.succ_lt_succ hj) w' hw'
          rwa [← Nat.add_assoc, Nat.add_right_comm] at this

end Opcode

namespace Instruction

variable {i j : Instruction} {opcode : Opcode} {rest words : List Word} {e : DecodeError} {n : Nat}

/-! ### Opcode and operands -/

/-- An instruction is determined by its opcode and its operands. -/
theorem eq_of_operands (hopcode : i.opcode = j.opcode) (hoperands : i.operands = j.operands) :
    i = j := by
  cases i <;> cases j <;> simp_all [Instruction.opcode, operands]

/-- The operand that takes the result is a register. -/
private theorem operand_of_isResult {k : Nat} {operand : Operand}
    (hk : i.operands[k]? = some operand)
    (hresult : i.opcode.isResult k = true) : ∃ r, operand = .register r := by
  obtain ⟨rfl, hhas⟩ : k = 0 ∧ i.opcode.hasResult = true := by simpa [Opcode.isResult] using hresult
  cases i with
  | set target | pop target | binary _ target | not target | load target | input target =>
    exact ⟨target, (Option.some.inj hk).symm⟩
  | _ => cases hhas

/-- With too few words after it, an opcode is cut off. -/
private theorem ofOperandWords_of_lt (h : rest.length < opcode.arity) :
    ofOperandWords opcode rest = .error (.truncated opcode opcode.arity rest.length) := by
  match rest with
  | [] => cases opcode <;> first | rfl | cases h
  | [_] => cases opcode <;> first | rfl | simp [Opcode.arity] at h
  | [_, _] => cases opcode <;> first | rfl | simp [Opcode.arity] at h
  | _ :: _ :: _ :: _ =>
    have := opcode.arity_le_three
    simp only [List.length_cons] at h
    omega

/-- With enough words after it, an opcode gets the operands that they stand for. -/
private theorem map_ofOperandWords (h : opcode.arity ≤ rest.length) :
    (fun i => (i.opcode, i.operands)) <$> ofOperandWords opcode rest =
      (opcode, ·) <$> opcode.operandsFrom 0 (rest.take opcode.arity) := by
  -- Only the first three words matter, and each reads as an operand or is in error.
  match opcode, rest, h with
  | .halt, _, _ | .ret, _, _ | .noop, _, _ => rfl
  | .push, a :: _, _ | .jump, a :: _, _ | .call, a :: _, _ | .output, a :: _, _ =>
    simp only [ofOperandWords, Opcode.arity, List.take, Opcode.operandsFrom, Opcode.operandAt,
      Opcode.isResult, Opcode.hasResult]
    cases Operand.ofWord a <;> rfl
  | .pop, a :: _, _ | .input, a :: _, _ =>
    simp only [ofOperandWords, Opcode.arity, List.take, Opcode.operandsFrom, Opcode.operandAt,
      Opcode.isResult, Opcode.hasResult]
    cases resultRegister _ 0 a <;> rfl
  | .branch _, a :: b :: _, _ | .store, a :: b :: _, _ =>
    simp only [ofOperandWords, Opcode.arity, List.take, Opcode.operandsFrom, Opcode.operandAt,
      Opcode.isResult, Opcode.hasResult]
    cases Operand.ofWord a <;> cases Operand.ofWord b <;> rfl
  | .set, a :: b :: _, _ | .not, a :: b :: _, _ | .load, a :: b :: _, _ =>
    simp only [ofOperandWords, Opcode.arity, List.take, Opcode.operandsFrom, Opcode.operandAt,
      Opcode.isResult, Opcode.hasResult]
    cases resultRegister _ 0 a <;> cases Operand.ofWord b <;> rfl
  | .binary op, a :: b :: c :: _, _ =>
    simp only [ofOperandWords, Opcode.arity, List.take, Opcode.operandsFrom, Opcode.operandAt,
      Opcode.isResult, Opcode.hasResult]
    cases resultRegister _ 0 a <;> cases Operand.ofWord b <;> cases Operand.ofWord c <;> rfl

private theorem ofOperandWords_eq_ok_iff_of_le (h : opcode.arity ≤ rest.length) :
    ofOperandWords opcode rest = .ok i ↔
      i.opcode = opcode ∧ opcode.operandsFrom 0 (rest.take opcode.arity) = .ok i.operands := by
  have hmap := map_ofOperandWords h
  generalize ofOperandWords opcode rest = read at hmap
  generalize opcode.operandsFrom 0 (rest.take opcode.arity) = operands at hmap
  cases read with
  | error e =>
    cases operands with
    | error e' => simp
    | ok operands => cases hmap
  | ok j =>
    cases operands with
    | error e => cases hmap
    | ok operands =>
      obtain ⟨rfl, rfl⟩ := Prod.mk.inj (Except.ok.inj hmap)
      simp only [Except.ok.injEq]
      constructor
      · rintro rfl
        exact ⟨rfl, rfl⟩
      · rintro ⟨hopcode, hoperands⟩
        exact eq_of_operands hopcode.symm hoperands

private theorem ofOperandWords_eq_error_iff_of_le (h : opcode.arity ≤ rest.length) :
    ofOperandWords opcode rest = .error e ↔
      opcode.operandsFrom 0 (rest.take opcode.arity) = .error e := by
  have hmap := map_ofOperandWords h
  generalize ofOperandWords opcode rest = read at hmap
  generalize opcode.operandsFrom 0 (rest.take opcode.arity) = operands at hmap
  cases read with
  | error e' =>
    cases operands with
    | error e'' =>
      cases Except.error.inj hmap
      simp
    | ok operands => cases hmap
  | ok i =>
    cases operands with
    | error e' => cases hmap
    | ok operands => simp

/-- An instruction is read when its operand words come first. -/
theorem ofOperandWords_eq_ok_iff :
    ofOperandWords opcode rest = .ok i ↔
      i.opcode = opcode ∧ i.IsEncodable ∧ i.operands.map Operand.toWord <+: rest := by
  by_cases hlt : rest.length < opcode.arity
  · rw [ofOperandWords_of_lt hlt]
    refine iff_of_false nofun ?_
    rintro ⟨rfl, -, hwords⟩
    have := hwords.length_le
    simp only [List.length_map, length_operands] at this
    omega
  · rw [ofOperandWords_eq_ok_iff_of_le (Nat.le_of_not_lt hlt)]
    refine and_congr_right fun hopcode => ?_
    subst hopcode
    rw [Opcode.operandsFrom_eq_ok_iff, List.prefix_iff_eq_take, List.length_map, length_operands]
    constructor
    · rintro ⟨hwords, hencodable, -⟩
      exact ⟨hencodable, hwords⟩
    · rintro ⟨hencodable, hwords⟩
      refine ⟨hwords, hencodable, fun k operand hk hresult => ?_⟩
      exact operand_of_isResult hk (by simpa using hresult)

/-! ### Whole instructions -/

/-- An instruction is read exactly from the lists that begin with its words. -/
theorem ofWords_eq_ok_iff :
    ofWords words = .ok (i, n) ↔ i.IsEncodable ∧ n = i.length ∧ i.words <+: words := by
  cases words with
  | nil => simp [ofWords, Instruction.words]
  | cons w rest =>
    rw [Instruction.words, List.cons_prefix_cons, ofWords]
    cases h : Opcode.ofWord? w with
    | none =>
      refine iff_of_false (fun h => by cases h) ?_
      rintro ⟨-, -, rfl, -⟩
      rw [Opcode.ofWord?_toWord] at h
      cases h
    | some opcode =>
      obtain rfl := Opcode.toWord_of_ofWord? h
      have hread : (do return (← ofOperandWords opcode rest, opcode.arity + 1) :
            Except DecodeError (Instruction × Nat)) = .ok (i, n) ↔
          ofOperandWords opcode rest = .ok i ∧ n = opcode.arity + 1 := by
        simp only [bind, Except.bind, pure, Except.pure]
        cases ofOperandWords opcode rest <;> simp [eq_comm]
      rw [hread, ofOperandWords_eq_ok_iff, length]
      constructor
      · rintro ⟨⟨rfl, hencodable, hwords⟩, rfl⟩
        exact ⟨hencodable, rfl, rfl, hwords⟩
      · rintro ⟨hencodable, rfl, hopcode, hwords⟩
        obtain rfl := Opcode.toWord_injective hopcode
        exact ⟨⟨rfl, hencodable, hwords⟩, rfl⟩

/-- The word `w` of operand `k` is the first that is **refused**: the opcode is known, no operand is
missing, and the operands before it are accepted. -/
structure FirstRefused (words : List Word) (opcode : Opcode) (k : Nat) (w : Word) : Prop where
  opcode_word : words.head? = some opcode.toWord
  complete : opcode.arity < words.length
  isOperand : k < opcode.arity
  operand_word : words[k + 1]? = some w
  accepted_before : ∀ j < k, ∀ w', words[j + 1]? = some w' → opcode.Accepts j w'
  refused : ¬ opcode.Accepts k w

/-- What is wrong with words that do not begin with an instruction. At most one case applies. -/
inductive Misread (words : List Word) : DecodeError → Prop
  | endOfStream (hnil : words = []) : Misread words .endOfStream
  | unknownOpcode {w : Word} (hw : words.head? = some w) (hge : 22 ≤ w.toNat) :
      Misread words (.unknownOpcode w)
  | truncated {opcode : Opcode} (hw : words.head? = some opcode.toWord)
      (hle : words.length ≤ opcode.arity) :
      Misread words (.truncated opcode opcode.arity (words.length - 1))
  | invalidOperand {opcode : Opcode} {k : Nat} {w : Word} (h : FirstRefused words opcode k w)
      (hgt : 32775 < w.toNat) : Misread words (.invalidOperand w)
  | notARegister {opcode : Opcode} {k : Nat} {w : Word} (h : FirstRefused words opcode k w)
      (hresult : opcode.isResult k = true) (hlt : w.toNat < 32768) :
      Misread words (.notARegister opcode k w)

theorem misread_endOfStream_iff : Misread words .endOfStream ↔ words = [] := by
  refine ⟨fun h => ?_, .endOfStream⟩
  cases h with
  | endOfStream hnil => exact hnil

private theorem misread_unknownOpcode_iff {w : Word} :
    Misread words (.unknownOpcode w) ↔ words.head? = some w ∧ 22 ≤ w.toNat := by
  refine ⟨fun h => ?_, fun ⟨hw, hge⟩ => .unknownOpcode hw hge⟩
  cases h with
  | unknownOpcode hw hge => exact ⟨hw, hge⟩

private theorem misread_truncated_iff {expected found : Nat} :
    Misread words (.truncated opcode expected found) ↔
      words.head? = some opcode.toWord ∧ expected = opcode.arity ∧ found = words.length - 1 ∧
        found < expected := by
  have hpos {w : Word} (hw : words.head? = some w) : 0 < words.length := by
    cases words with
    | nil => cases hw
    | cons => exact Nat.succ_pos _
  constructor
  · intro h
    cases h with
    | truncated hw hle =>
      have := hpos hw
      exact ⟨hw, rfl, rfl, by omega⟩
  · rintro ⟨hw, rfl, rfl, hlt⟩
    exact .truncated hw (by omega)

private theorem misread_invalidOperand_iff {w : Word} :
    Misread words (.invalidOperand w) ↔
      ∃ opcode k, FirstRefused words opcode k w ∧ 32775 < w.toNat := by
  refine ⟨fun h => ?_, fun ⟨_, _, h, hgt⟩ => .invalidOperand h hgt⟩
  cases h with
  | invalidOperand h hgt => exact ⟨_, _, h, hgt⟩

private theorem misread_notARegister_iff {k : Nat} {w : Word} :
    Misread words (.notARegister opcode k w) ↔
      FirstRefused words opcode k w ∧ opcode.isResult k = true ∧ w.toNat < 32768 := by
  refine ⟨fun h => ?_, fun ⟨h, hresult, hlt⟩ => .notARegister h hresult hlt⟩
  cases h with
  | notARegister h hresult hlt => exact ⟨h, hresult, hlt⟩

/-- The first operand that is refused says what is wrong. -/
private theorem operandsFrom_take_eq_error_iff (hle : opcode.arity ≤ rest.length) :
    opcode.operandsFrom 0 (rest.take opcode.arity) = .error e ↔
      ∃ k w, FirstRefused (opcode.toWord :: rest) opcode k w ∧ opcode.operandAt k w = .error e := by
  rw [Opcode.operandsFrom_eq_error_iff]
  refine exists₂_congr fun k w => ?_
  simp only [Nat.zero_add, List.getElem?_take]
  constructor
  · rintro ⟨hw, he, hbefore⟩
    split at hw
    · next hk =>
      refine ⟨⟨rfl, Nat.lt_succ_of_le hle, hk, hw, fun j hj w' hw' => hbefore j hj w' ?_, ?_⟩, he⟩
      · rw [if_pos (Nat.lt_trans hj hk)]
        exact hw'
      · rw [Opcode.accepts_iff, he]
        exact nofun
    · cases hw
  · rintro ⟨h, he⟩
    refine ⟨by rw [if_pos h.isOperand]; exact h.operand_word, he, fun j hj w' hw' => ?_⟩
    rw [if_pos (Nat.lt_trans hj h.isOperand)] at hw'
    exact h.accepted_before j hj w' hw'

/-- The opcode is known, so what is wrong are the operands. -/
theorem ofOperandWords_eq_error_iff :
    ofOperandWords opcode rest = .error e ↔ Misread (opcode.toWord :: rest) e := by
  have hknown : ¬ 22 ≤ opcode.toWord.toNat := by
    rw [← Opcode.ofWord?_eq_none_iff, Opcode.ofWord?_toWord]
    exact nofun
  have hopcode {opcode' : Opcode}
      (hw : (opcode.toWord :: rest).head? = some opcode'.toWord) : opcode' = opcode :=
    (Opcode.toWord_injective (Option.some.inj hw)).symm
  by_cases hfew : rest.length < opcode.arity
  · rw [ofOperandWords_of_lt hfew, Except.error.injEq]
    constructor
    · rintro rfl
      exact .truncated rfl hfew
    · intro h
      cases h with
      | endOfStream hnil => cases hnil
      | unknownOpcode hw hge =>
        cases hw
        exact absurd hge hknown
      | truncated hw =>
        obtain rfl := hopcode hw
        rfl
      | invalidOperand h | notARegister h =>
        obtain rfl := hopcode h.opcode_word
        exact absurd h.complete (Nat.not_lt_of_le hfew)
  · rw [ofOperandWords_eq_error_iff_of_le (Nat.le_of_not_lt hfew),
      operandsFrom_take_eq_error_iff (Nat.le_of_not_lt hfew)]
    simp only [Opcode.operandAt_eq_error_iff]
    constructor
    · rintro ⟨k, w, h, ⟨hgt, rfl⟩ | ⟨hresult, hlt, rfl⟩⟩
      · exact .invalidOperand h hgt
      · exact .notARegister h hresult hlt
    · intro h
      cases h with
      | endOfStream hnil => cases hnil
      | unknownOpcode hw hge =>
        cases hw
        exact absurd hge hknown
      | truncated hw hle =>
        obtain rfl := hopcode hw
        exact absurd hle hfew
      | invalidOperand h hgt =>
        obtain rfl := hopcode h.opcode_word
        exact ⟨_, _, h, .inl ⟨hgt, rfl⟩⟩
      | notARegister h hresult hlt =>
        obtain rfl := hopcode h.opcode_word
        exact ⟨_, _, h, .inr ⟨hresult, hlt, rfl⟩⟩

/-- Words that do not begin with an instruction are misread, and in one way only. -/
theorem ofWords_eq_error_iff : ofWords words = .error e ↔ Misread words e := by
  cases words with
  | nil =>
    rw [ofWords, Except.error.injEq]
    constructor
    · rintro rfl
      exact .endOfStream rfl
    · intro h
      cases h with
      | endOfStream => rfl
      | unknownOpcode hw | truncated hw => cases hw
      | invalidOperand h | notARegister h => cases h.opcode_word
  | cons w rest =>
    rw [ofWords]
    cases hw : Opcode.ofWord? w with
    | none =>
      have hunknown {opcode : Opcode} (h : (w :: rest).head? = some opcode.toWord) : False := by
        obtain rfl := Option.some.inj h
        rw [Opcode.ofWord?_toWord] at hw
        cases hw
      rw [Except.error.injEq]
      constructor
      · rintro rfl
        exact .unknownOpcode rfl (Opcode.ofWord?_eq_none_iff.mp hw)
      · intro h
        cases h with
        | endOfStream hnil => cases hnil
        | unknownOpcode hw =>
          cases hw
          rfl
        | truncated hw => exact (hunknown hw).elim
        | invalidOperand h | notARegister h => exact (hunknown h.opcode_word).elim
    | some opcode =>
      obtain rfl := Opcode.toWord_of_ofWord? hw
      rw [← ofOperandWords_eq_error_iff]
      simp only [bind, Except.bind, pure, Except.pure]
      cases ofOperandWords opcode rest <;> simp

/-- No two instructions have the words of one at the head of the words of the other. -/
theorem eq_of_words_prefix (hi : i.IsEncodable) (hj : j.IsEncodable) (h : i.words <+: j.words) :
    i = j := by
  have hread : ofWords j.words = .ok (i, i.length) := ofWords_eq_ok_iff.mpr ⟨hi, rfl, h⟩
  have hself : ofWords j.words = .ok (j, j.length) :=
    ofWords_eq_ok_iff.mpr ⟨hj, rfl, List.prefix_refl j.words⟩
  exact congrArg Prod.fst (Except.ok.inj (hread.symm.trans hself))

/-! ### Positions in a stream -/

/-- No more than four words are looked at. -/
private theorem ofWords_take (words : List Word) : ofWords (words.take 4) = ofWords words := by
  have htake (opcode : Opcode) (rest : List Word) :
      ofOperandWords opcode (rest.take 3) = ofOperandWords opcode rest := by
    match rest with
    | [] | [_] | [_, _] => rfl
    | _ :: _ :: _ :: _ => cases opcode <;> rfl
  cases words with
  | nil => rfl
  | cons w rest => simp only [List.take_succ_cons, ofWords, htake]

/-- Decoding at a position reads the words from there on. -/
theorem decode_eq (stream : Array Word) (position : Nat) :
    decode stream position = ofWords (stream.toList.drop position) := by
  rw [decode, Array.toList_extract, List.extract_eq_take_drop, Nat.add_sub_cancel_left,
    ofWords_take]

/-- **Decoding is exact.** An instruction is decoded at a position exactly if its words stand there
in full and its literals can be told from registers; its length is the number of its words.
Otherwise decoding fails: at the end of the stream, on a number that is no opcode, on operands that
are cut off, or on the first operand word that is refused, whichever comes first. -/
theorem decode_exact (stream : Array Word) (position : Nat) :
    (∀ i n, decode stream position = .ok (i, n) ↔
      i.IsEncodable ∧ n = i.length ∧ n = 1 + i.opcode.arity ∧
        (stream.extract position (position + n)).toList = i.words) ∧
    (decode stream position = .error .endOfStream ↔ stream.size ≤ position) ∧
    (∀ w, decode stream position = .error (.unknownOpcode w) ↔
      stream[position]? = some w ∧ 22 ≤ w.toNat) ∧
    (∀ opcode expected found,
      decode stream position = .error (.truncated opcode expected found) ↔
        stream[position]? = some opcode.toWord ∧ expected = opcode.arity ∧
          found = stream.size - (position + 1) ∧ found < expected) ∧
    (∀ w, decode stream position = .error (.invalidOperand w) ↔
      ∃ opcode k, FirstRefused (stream.toList.drop position) opcode k w ∧ 32775 < w.toNat) ∧
    ∀ opcode k w, decode stream position = .error (.notARegister opcode k w) ↔
      FirstRefused (stream.toList.drop position) opcode k w ∧ opcode.isResult k = true ∧
        w.toNat < 32768 := by
  have hhead : (stream.toList.drop position).head? = stream[position]? := by simp
  have hlength : (stream.toList.drop position).length = stream.size - position := by simp
  refine ⟨fun i n => ?_, ?_, fun w => ?_, fun opcode expected found => ?_, fun w => ?_,
    fun opcode k w => ?_⟩
  · rw [decode_eq, ofWords_eq_ok_iff, List.prefix_iff_eq_take, length_words, Array.toList_extract,
      List.extract_eq_take_drop, Nat.add_sub_cancel_left]
    refine and_congr_right fun _ => and_congr_right fun hn => ?_
    subst hn
    rw [length, Nat.add_comm, eq_self_iff_true, true_and, eq_comm]
  · rw [decode_eq, ofWords_eq_error_iff, misread_endOfStream_iff, List.drop_eq_nil_iff,
      Array.length_toList]
  · rw [decode_eq, ofWords_eq_error_iff, misread_unknownOpcode_iff, hhead]
  · rw [decode_eq, ofWords_eq_error_iff, misread_truncated_iff, hhead, hlength, Nat.sub_sub]
  · rw [decode_eq, ofWords_eq_error_iff, misread_invalidOperand_iff]
  · rw [decode_eq, ofWords_eq_error_iff, misread_notARegister_iff]

-- The first bad operand counts: the literal in the place of the result, not the word after it.
example : decode #[21, 9, 5, 40000, 1] 1 = .error (.notARegister (.binary .add) 0 5) := by decide

end Instruction

end WordMachine
