/-!
# Sets of characters as sorted ranges

A **range table** is a list of inclusive code point ranges in ascending order. `Ranges.covers`
looks a code point up and gives up at the first range that starts above it; on an ascending table
that loses nothing (`Ranges.covers_iff`).
-/

namespace WordMachine.Text

/-- A set of code points, as inclusive ranges from low to high. -/
abbrev Ranges := List (Nat × Nat)

/-- Whether `n` lies in one of the ranges of an ascending table. -/
def Ranges.covers : Ranges → Nat → Bool
  | [], _ => false
  | (lo, hi) :: rest, n => if n < lo then false else n ≤ hi || Ranges.covers rest n

/-- Every range of the table starts above `bound`, is not empty, and ends below the next one. -/
def Ranges.Ascending : Nat → Ranges → Prop
  | _, [] => True
  | bound, (lo, hi) :: rest => bound ≤ lo ∧ lo ≤ hi ∧ Ranges.Ascending (hi + 1) rest

/-- `Ranges.Ascending` as a test. -/
def Ranges.ascending : Nat → Ranges → Bool
  | _, [] => true
  | bound, (lo, hi) :: rest => bound ≤ lo && lo ≤ hi && Ranges.ascending (hi + 1) rest

theorem Ranges.ascending_iff {bound : Nat} {table : Ranges} :
    table.ascending bound = true ↔ table.Ascending bound := by
  induction table generalizing bound with
  | nil => simp [Ranges.ascending, Ranges.Ascending]
  | cons range rest ih => simp [Ranges.ascending, Ranges.Ascending, ih, and_assoc]

private theorem Ranges.Ascending.le_of_mem {bound : Nat} {table : Ranges}
    (h : table.Ascending bound) {range : Nat × Nat} (hmem : range ∈ table) : bound ≤ range.1 := by
  induction table generalizing bound with
  | nil => simp at hmem
  | cons first rest ih =>
    obtain ⟨hlo, hle, hrest⟩ := h
    rcases List.mem_cons.mp hmem with rfl | hmem
    · exact hlo
    · have := ih hrest hmem
      omega

/-- On an ascending table the early exit is harmless. -/
theorem Ranges.covers_iff {bound : Nat} {table : Ranges} (h : table.Ascending bound) (n : Nat) :
    table.covers n = true ↔ ∃ range ∈ table, range.1 ≤ n ∧ n ≤ range.2 := by
  induction table generalizing bound with
  | nil => simp [Ranges.covers]
  | cons first rest ih =>
    obtain ⟨hlo, hle, hrest⟩ := h
    by_cases hn : n < first.1
    · simp only [Ranges.covers, hn, if_true, Bool.false_eq_true, false_iff]
      rintro ⟨range, hmem, hge, _⟩
      rcases List.mem_cons.mp hmem with rfl | hmem
      · omega
      · have := hrest.le_of_mem hmem
        omega
    · simp [Ranges.covers, hn, ih hrest, Nat.not_lt.mp hn]

end WordMachine.Text
