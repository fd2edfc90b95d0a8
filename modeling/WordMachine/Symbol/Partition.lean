/-!
# Bisection

`partitionPoint` finds by bisection where an array changes from the elements with a property to
those without, provided that it changes once. Below the point every element has the property
(`of_lt_partitionPoint`), from the point on none has (`not_of_partitionPoint_le`).
-/

namespace WordMachine

variable {α : Type}

/-- Bisects between `low` and `high`. -/
def partitionPointBetween (xs : Array α) (p : α → Bool) (low high : Nat) (h : high ≤ xs.size) :
    Nat :=
  if hlt : low < high then
    let middle := (low + high) / 2
    have hmiddle : middle < xs.size := by omega
    if p xs[middle] then partitionPointBetween xs p (middle + 1) high h
    else partitionPointBetween xs p low middle (by omega)
  else low
termination_by high - low

/-- The number of elements at the head of the array that have the property. -/
def partitionPoint (xs : Array α) (p : α → Bool) : Nat :=
  partitionPointBetween xs p 0 xs.size (Nat.le_refl _)

/-- An element has the property whenever a later one has it. -/
def ChangesOnce (xs : Array α) (p : α → Bool) : Prop :=
  ∀ i j (hi : i < xs.size) (hj : j < xs.size), i ≤ j → p xs[j] = true → p xs[i] = true

private theorem partitionPointBetween_bounds (xs : Array α) (p : α → Bool) (low high : Nat)
    (h : high ≤ xs.size) (hle : low ≤ high) :
    low ≤ partitionPointBetween xs p low high h ∧
      partitionPointBetween xs p low high h ≤ high := by
  fun_induction partitionPointBetween xs p low high h with
  | case1 low high h hlt middle hmiddle hp ih =>
    have := ih (by omega)
    omega
  | case2 low high h hlt middle hmiddle hp ih =>
    have := ih (by omega)
    omega
  | case3 low high h hge => omega

theorem partitionPoint_le (xs : Array α) (p : α → Bool) : partitionPoint xs p ≤ xs.size :=
  (partitionPointBetween_bounds xs p 0 xs.size (Nat.le_refl _) (Nat.zero_le _)).2

private theorem partitionPointBetween_separates {xs : Array α} {p : α → Bool}
    (hp : ChangesOnce xs p) (low high : Nat) (h : high ≤ xs.size)
    (hbelow : ∀ i (hi : i < xs.size), i < low → p xs[i] = true)
    (habove : ∀ i (hi : i < xs.size), high ≤ i → p xs[i] = false) (hle : low ≤ high) :
    (∀ i (hi : i < xs.size), i < partitionPointBetween xs p low high h → p xs[i] = true) ∧
      ∀ i (hi : i < xs.size), partitionPointBetween xs p low high h ≤ i → p xs[i] = false := by
  fun_induction partitionPointBetween xs p low high h with
  | case1 low high h hlt middle hmiddle hholds ih =>
    refine ih (fun i hi hlow => ?_) habove (by omega)
    exact hp i middle hi hmiddle (by omega) hholds
  | case2 low high h hlt middle hmiddle hfails ih =>
    refine ih hbelow (fun i hi hge => ?_) (by omega)
    cases hi' : p xs[i] with
    | false => rfl
    | true => exact absurd (hp middle i hmiddle hi hge hi') hfails
  | case3 low high h hge =>
    exact ⟨hbelow, fun i hi hlow => habove i hi (by omega)⟩

theorem of_lt_partitionPoint {xs : Array α} {p : α → Bool} (hp : ChangesOnce xs p) {i : Nat}
    (hi : i < xs.size) (hlt : i < partitionPoint xs p) : p xs[i] = true :=
  (partitionPointBetween_separates hp 0 xs.size (Nat.le_refl _) (fun _ _ h => absurd h (by omega))
    (fun _ _ h => absurd h (by omega)) (Nat.zero_le _)).1 i hi hlt

theorem not_of_partitionPoint_le {xs : Array α} {p : α → Bool} (hp : ChangesOnce xs p) {i : Nat}
    (hi : i < xs.size) (hle : partitionPoint xs p ≤ i) : p xs[i] = false :=
  (partitionPointBetween_separates hp 0 xs.size (Nat.le_refl _) (fun _ _ h => absurd h (by omega))
    (fun _ _ h => absurd h (by omega)) (Nat.zero_le _)).2 i hi hle

end WordMachine
