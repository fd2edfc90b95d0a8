/-!
# The last assignment wins

Where values are assigned to places one after the other, a place holds the last value that was
assigned to it, or else what it held at the start (`get_foldl`).
-/

namespace WordMachine

/-- A place is looked up among the assignments from the last one on. Assignments may have to be
`Valid` to be carried out. -/
theorem get_foldl {σ κ ν γ : Type} [DecidableEq κ] {assign : σ → κ × ν → σ} {get : σ → κ → γ}
    {held : ν → γ} {Valid : κ × ν → Prop}
    (hget : ∀ state assignment place, Valid assignment → get (assign state assignment) place =
      if assignment.1 = place then held assignment.2 else get state place)
    {assignments : List (κ × ν)} (h : ∀ assignment ∈ assignments, Valid assignment) (start : σ)
    (place : κ) :
    get (assignments.foldl assign start) place =
      (assignments.reverse.lookup place).elim (get start place) held := by
  induction assignments generalizing start with
  | nil => rfl
  | cons assignment assignments ih =>
    obtain ⟨hvalid, hrest⟩ := List.forall_mem_cons.mp h
    obtain ⟨changed, value⟩ := assignment
    rw [List.foldl_cons, ih hrest, hget _ _ _ hvalid, List.reverse_cons, List.lookup_append]
    cases assignments.reverse.lookup place with
    | some value => rfl
    | none =>
      by_cases heq : changed = place
      · simp [heq]
      · have hbeq : (place == changed) = false := beq_false_of_ne (Ne.symm heq)
        simp [List.lookup_cons, heq, hbeq]

end WordMachine
