import Mathlib.Data.List.Basic
import WordMachine.Symbol

/-!
# Well-formed symbol tables

A symbol table is **well formed** when its symbols have different names, lie in memory and share no
address, and when its places are in the order of first addresses. The rank of an address then cuts
this order in two: the symbols below it start at or below the address, the others start above it
(`lt_rank_iff`). Since symbols share no address, all but the last of those below the rank end before
that one starts, so it is the only one that can hold the address (`before?_of_contains`).
-/

namespace WordMachine

namespace SymbolEntry

/-- Some address lies both in the range of the symbol and between `first` and `last`. -/
def Shares (entry : SymbolEntry) (first last : Word) : Prop :=
  ∃ address, entry.contains address = true ∧ first ≤ address ∧ address ≤ last

theorem contains_iff {entry : SymbolEntry} {address : Word} :
    entry.contains address = true ↔ entry.first ≤ address ∧ address ≤ entry.last := by
  simp [contains]

/-- Comparing the ends of two ranges is enough, if neither is inverted. -/
theorem meets_iff_shares {entry : SymbolEntry} (hentry : entry.first ≤ entry.last)
    {first last : Word} (h : first ≤ last) :
    entry.meets first last = true ↔ entry.Shares first last := by
  rw [meets, Bool.and_eq_true, decide_eq_true_iff, decide_eq_true_iff]
  constructor
  · rintro ⟨hfirst, hlast⟩
    rcases UInt16.le_total entry.first first with hle | hle
    · exact ⟨first, contains_iff.mpr ⟨hle, hlast⟩, UInt16.le_refl first, h⟩
    · exact ⟨entry.first, contains_iff.mpr ⟨UInt16.le_refl _, hentry⟩, hle, hfirst⟩
  · rintro ⟨address, hcontains, hfirst, hlast⟩
    obtain ⟨hfirst', hlast'⟩ := contains_iff.mp hcontains
    exact ⟨UInt16.le_trans hfirst' hlast, UInt16.le_trans hfirst hlast'⟩

end SymbolEntry

namespace SymbolTable

/-- What holds of every symbol table that is built by adding symbols. -/
structure WellFormed (table : SymbolTable) : Prop where
  /-- Different symbols have different names. -/
  names : table.added.toList.Pairwise fun e e' => e.name ≠ e'.name
  /-- Every symbol is a range of addresses in memory. -/
  ranges : ∀ e ∈ table.added, e.first ≤ e.last ∧ e.last.toNat < memorySize
  /-- Different symbols share no address. -/
  apart : table.added.toList.Pairwise fun e e' => ¬ e.Shares e'.first e'.last
  /-- The places in order are those of the symbols, each once. -/
  places : table.byFirst.toList.Perm (List.range table.added.size)
  /-- The order is that of the first addresses. -/
  ascending : ∀ ⦃i j⦄, i < j → ∀ e ∈ table.entryAt? i, ∀ e' ∈ table.entryAt? j, e.first < e'.first

theorem wellFormed_empty : empty.WellFormed where
  names := .nil
  ranges := nofun
  apart := .nil
  places := .nil
  ascending := nofun

theorem rank_le (table : SymbolTable) (address : Word) :
    table.rank address ≤ table.byFirst.size := partitionPoint_le _ _

theorem lt_of_entryAt? {table : SymbolTable} {k : Nat} {e : SymbolEntry}
    (hk : table.entryAt? k = some e) : k < table.byFirst.size := by
  by_contra hge
  simp [entryAt?, Nat.le_of_not_lt hge] at hk

theorem mem_of_entryAt? {table : SymbolTable} {k : Nat} {e : SymbolEntry}
    (hk : table.entryAt? k = some e) : e ∈ table.added := by
  obtain ⟨place, -, hplace⟩ := Option.bind_eq_some_iff.mp hk
  exact Array.mem_of_getElem? hplace

namespace WellFormed

variable {table : SymbolTable} (h : table.WellFormed) {e e' : SymbolEntry} {address : Word}
include h

/-! ### Symbols and their places -/

/-- Every place in the order is one of a symbol. -/
theorem place_lt {place : Nat} (hmem : place ∈ table.byFirst) : place < table.added.size := by
  have hrange := h.places.mem_iff.mp (Array.mem_toList_iff.mpr hmem)
  exact List.mem_range.mp hrange

/-- There is a symbol at every place in the order. -/
theorem exists_entryAt? {k : Nat} (hk : k < table.byFirst.size) :
    ∃ e, table.added[table.byFirst[k]]? = some e ∧ table.entryAt? k = some e := by
  have hlt := h.place_lt (Array.getElem_mem hk)
  refine ⟨table.added[table.byFirst[k]], by simp [hlt], ?_⟩
  simp [entryAt?, hk, hlt]

/-- Every symbol has its place in the order. -/
theorem exists_place (hmem : e ∈ table.added) : ∃ k, table.entryAt? k = some e := by
  obtain ⟨place, hplace⟩ := Array.mem_iff_getElem?.mp hmem
  have hlt : place < table.added.size := (Array.getElem?_eq_some_iff.mp hplace).1
  have hmem' : place ∈ table.byFirst.toList := h.places.mem_iff.mpr (List.mem_range.mpr hlt)
  obtain ⟨k, hk⟩ := Array.mem_iff_getElem?.mp (Array.mem_toList_iff.mp hmem')
  exact ⟨k, by rw [entryAt?, hk, Option.bind_some, hplace]⟩

/-- A symbol holds its first address. -/
theorem contains_first (hmem : e ∈ table.added) : e.contains e.first :=
  SymbolEntry.contains_iff.mpr ⟨UInt16.le_refl _, (h.ranges e hmem).1⟩

/-- Two places whose symbols hold the same address are the same. -/
theorem place_eq_of_contains {i j : Nat} (hi : table.added[i]? = some e)
    (hj : table.added[j]? = some e') (he : e.contains address) (he' : e'.contains address) :
    i = j := by
  have hnot {i j : Nat} {e e' : SymbolEntry} (hi : table.added[i]? = some e)
      (hj : table.added[j]? = some e') (he : e.contains address) (he' : e'.contains address) :
      ¬ i < j := by
    intro hlt
    rw [← Array.getElem?_toList] at hi hj
    obtain ⟨hi', rfl⟩ := List.getElem?_eq_some_iff.mp hi
    obtain ⟨hj', rfl⟩ := List.getElem?_eq_some_iff.mp hj
    obtain ⟨hfirst, hlast⟩ := SymbolEntry.contains_iff.mp he'
    exact List.pairwise_iff_getElem.mp h.apart i j hi' hj' hlt ⟨address, he, hfirst, hlast⟩
  exact Nat.le_antisymm (Nat.le_of_not_lt (hnot hj hi he' he))
    (Nat.le_of_not_lt (hnot hi hj he he'))

/-- Symbols that hold the same address are the same. -/
theorem eq_of_contains (hmem : e ∈ table.added) (hmem' : e' ∈ table.added)
    (he : e.contains address) (he' : e'.contains address) : e = e' := by
  obtain ⟨i, hi⟩ := Array.mem_iff_getElem?.mp hmem
  obtain ⟨j, hj⟩ := Array.mem_iff_getElem?.mp hmem'
  obtain rfl := h.place_eq_of_contains hi hj he he'
  exact Option.some.inj (hi.symm.trans hj)

/-! ### Ranks -/

/-- Bisection asks a question whose answer changes only once along the order. -/
private theorem changesOnce (address : Word) :
    ChangesOnce table.byFirst fun place => table.added[place]?.any (·.first ≤ address) := by
  intro i j hi hj hle hp
  obtain ⟨e, hplace, he⟩ := h.exists_entryAt? hi
  obtain ⟨e', hplace', he'⟩ := h.exists_entryAt? hj
  dsimp only at hp ⊢
  rw [hplace', Option.any_some, decide_eq_true_iff] at hp
  rw [hplace, Option.any_some, decide_eq_true_iff]
  -- A later symbol that starts at or below the address has all earlier ones below it.
  rcases Nat.eq_or_lt_of_le hle with rfl | hlt
  · obtain rfl := Option.some.inj (he.symm.trans he')
    exact hp
  · exact UInt16.le_trans (UInt16.le_of_lt (h.ascending hlt e he e' he')) hp

/-- The symbols below the rank of an address are those that start at or below the address. -/
theorem lt_rank_iff {k : Nat} (hk : table.entryAt? k = some e) (address : Word) :
    k < table.rank address ↔ e.first ≤ address := by
  have hlt := lt_of_entryAt? hk
  obtain ⟨e', hplace, he'⟩ := h.exists_entryAt? hlt
  obtain rfl := Option.some.inj (hk.symm.trans he')
  constructor
  · intro hrank
    have hp := of_lt_partitionPoint (h.changesOnce address) hlt hrank
    rwa [hplace, Option.any_some, decide_eq_true_iff] at hp
  · intro hfirst
    by_contra hge
    have hp := not_of_partitionPoint_le (h.changesOnce address) hlt (Nat.le_of_not_lt hge)
    rw [hplace, Option.any_some, decide_eq_false_iff_not] at hp
    exact hp hfirst

/-- What comes before the rank of an address starts at or below it. -/
theorem first_le_of_before? (hbefore : table.before? (table.rank address) = some e) :
    e ∈ table.added ∧ e.first ≤ address := by
  rw [before?] at hbefore
  split at hbefore
  · cases hbefore
  · next hrank => exact ⟨mem_of_entryAt? hbefore, (h.lt_rank_iff hbefore address).mp (by omega)⟩

/-- The symbol that holds an address comes just before the rank of the address. -/
theorem before?_of_contains (hmem : e ∈ table.added) (he : e.contains address) :
    table.before? (table.rank address) = some e := by
  obtain ⟨hfirst, hlast⟩ := SymbolEntry.contains_iff.mp he
  obtain ⟨k, hk⟩ := h.exists_place hmem
  have hrank := (h.lt_rank_iff hk address).mpr hfirst
  have hle := table.rank_le address
  have hlt : table.rank address - 1 < table.byFirst.size := by omega
  obtain ⟨e', -, he'⟩ := h.exists_entryAt? hlt
  rw [before?, if_neg (by omega), he']
  rcases Nat.lt_or_ge k (table.rank address - 1) with hlt | hge
  · -- The last one before the rank starts inside of `e`, which no other symbol does.
    have hfirst' := h.ascending hlt e hk e' he'
    have hle' := (h.lt_rank_iff he' address).mp (by omega)
    have hmem' := mem_of_entryAt? he'
    have hinside : e.contains e'.first := SymbolEntry.contains_iff.mpr
      ⟨UInt16.le_of_lt hfirst', UInt16.le_trans hle' hlast⟩
    rw [h.eq_of_contains hmem hmem' hinside (h.contains_first hmem')]
  · obtain rfl : k = table.rank address - 1 := by omega
    exact he'.symm.trans hk

end WellFormed

end SymbolTable

end WordMachine
