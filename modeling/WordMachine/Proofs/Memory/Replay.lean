import WordMachine.Memory
import WordMachine.Proofs.LastWins

/-!
# Words put in place one after the other

Memory after a list of stores is the memory before them with the words put in place in order
(`Memory.replay`). A cell holds the last word that was stored to it, and one that is not among those
stored to holds what it held before (`read_replay`).
-/

namespace WordMachine

namespace Memory

/-- Memory after words were stored at addresses, in order. What is stored outside of memory is
lost. -/
def replay (memory : Memory) (stores : List (Word × Word)) : Memory :=
  stores.foldl (fun memory (address, value) => memory.put address value) memory

variable {memory : Memory} {stores : List (Word × Word)}

theorem replay_append (stores later : List (Word × Word)) :
    memory.replay (stores ++ later) = (memory.replay stores).replay later := by
  rw [replay, List.foldl_append, replay, replay]

/-- Outside of memory nothing can be put. -/
theorem put_of_not_holds {address : Word} (h : ¬Holds address) (value : Word) :
    memory.put address value = memory := by
  rw [put, Vector.setIfInBounds_eq_of_size_le (Nat.le_of_not_lt h)]

/-- A cell that is not among those stored to stays as it is. -/
theorem getElem?_words_replay {a : Nat} (h : ∀ store ∈ stores, store.1.toNat ≠ a) :
    (memory.replay stores).words[a]? = memory.words[a]? := by
  induction stores generalizing memory with
  | nil => rfl
  | cons store stores ih =>
    obtain ⟨hne, hstores⟩ := List.forall_mem_cons.mp h
    have hput : (memory.put store.1 store.2).words[a]? = memory.words[a]? := by
      rw [words, put, Vector.toArray_setIfInBounds, Array.getElem?_setIfInBounds_ne hne, words]
    rw [replay, List.foldl_cons]
    exact (ih hstores).trans hput

/-- Every address holds the last word that was stored there, or else what it held before. -/
theorem read_replay (h : ∀ store ∈ stores, Holds store.1) (address : Word) :
    (memory.replay stores).read address =
      (stores.reverse.lookup address).elim (memory.read address) .ok :=
  get_foldl (fun _ _ place hholds => read_put hholds _ place) h memory address

end Memory

end WordMachine
