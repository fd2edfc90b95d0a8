import WordMachine.Operand

/-!
# The register file

Eight registers of 16 bits. A register that does not exist reads as zero, and writing to it does
nothing (`RegisterFile.get_set`).
-/

namespace WordMachine

open Text

/-- The contents of the eight registers. -/
structure RegisterFile where
  /-- The contents from register 0 on. -/
  cells : Vector Word 8
  deriving DecidableEq, Repr

namespace RegisterFile

/-- All registers hold zero. -/
def zero : RegisterFile := ⟨Vector.replicate 8 0⟩

/-- The content of register `n`. -/
def get (file : RegisterFile) (n : Nat) : Word := file.cells[n]?.getD 0

/-- The file with `value` in register `n`. -/
def set (file : RegisterFile) (n : Nat) (value : Word) : RegisterFile :=
  ⟨file.cells.setIfInBounds n value⟩

/-- The value of an operand: literals stand for themselves. -/
def value (file : RegisterFile) : Operand → Word
  | .literal value => value
  | .register r => file.get r.val

/-- All registers with their contents, such as `r0=0, r1=5` and so on. -/
def text (file : RegisterFile) : String :=
  ", ".intercalate
    (file.cells.toList.zipIdx.map fun (value, n) => "r" ++ decimal n ++ "=" ++ value.text)

@[simp] theorem get_zero (n : Nat) : zero.get n = 0 := by
  by_cases h : n < 8 <;> simp [get, zero, h]

theorem get_set (file : RegisterFile) (n : Nat) (value : Word) (k : Nat) :
    (file.set n value).get k = if n = k ∧ k < 8 then value else file.get k := by
  unfold get set
  by_cases hk : k < 8
  · by_cases hn : n = k
    · subst hn
      simp [hk]
    · simp [hk, hn]
  · simp [hk]

/-- Register files with the same contents are the same. -/
theorem ext_of_get {file file' : RegisterFile}
    (h : ∀ r : Register, file.get r.val = file'.get r.val) : file = file' := by
  obtain ⟨cells⟩ := file
  obtain ⟨cells'⟩ := file'
  refine congrArg RegisterFile.mk (Vector.ext fun n hlt => ?_)
  simpa [get, hlt] using h ⟨n, hlt⟩

end RegisterFile

end WordMachine
