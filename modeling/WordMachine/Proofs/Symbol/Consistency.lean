import WordMachine.Proofs.Symbol.Lookup

/-!
# Sets of symbols that can stand in one table

Symbols are let into a table one after another, each by comparison with those before it. Whether all
of them are let in does not depend on the order: it takes a **consistent** list of symbols, in which
names differ, ranges share no number and every range lies in memory. A table of the symbols so far
lets in a further one exactly if the list stays consistent (`WellFormed.add_eq_ok_iff`).

Here addresses are numbers of any size, as they are written in symbol files.
-/

namespace WordMachine

/-- A symbol as it is written, with addresses that need not be those of a word. -/
@[ext] structure WrittenSymbol where
  name : String
  /-- The first address. -/
  first : Nat
  /-- The last address. -/
  last : Nat
  deriving DecidableEq, Repr

namespace WrittenSymbol

variable {symbols symbols' : List WrittenSymbol} {s s' : WrittenSymbol}

/-- The ranges have a number in common. -/
def Overlaps (s s' : WrittenSymbol) : Prop :=
  ∃ n, (s.first ≤ n ∧ n ≤ s.last) ∧ s'.first ≤ n ∧ n ≤ s'.last

theorem Overlaps.symm (h : s.Overlaps s') : s'.Overlaps s := by
  obtain ⟨n, hn, hn'⟩ := h
  exact ⟨n, hn', hn⟩

/-- The symbols can stand together in a table. -/
structure Consistent (symbols : List WrittenSymbol) : Prop where
  /-- Every range lies in memory. -/
  ranges : ∀ s ∈ symbols, s.first ≤ s.last ∧ s.last < 32768
  names : symbols.Pairwise fun s s' => s.name ≠ s'.name
  apart : symbols.Pairwise fun s s' => ¬s.Overlaps s'

namespace Consistent

theorem sublist (h : Consistent symbols) (hsub : symbols'.Sublist symbols) :
    Consistent symbols' where
  ranges s hmem := h.ranges s (hsub.mem hmem)
  names := h.names.sublist hsub
  apart := h.apart.sublist hsub

/-- The order of the symbols is of no account. -/
theorem perm (h : Consistent symbols) (hperm : symbols.Perm symbols') : Consistent symbols' where
  ranges s hmem := h.ranges s (hperm.mem_iff.mpr hmem)
  names := (hperm.pairwise_iff fun hne => hne.symm).mp h.names
  apart := (hperm.pairwise_iff fun hnot hoverlaps => hnot hoverlaps.symm).mp h.apart

end Consistent

end WrittenSymbol

/-- The symbol with its addresses as numbers. -/
def SymbolEntry.written (e : SymbolEntry) : WrittenSymbol := ⟨e.name, e.first.toNat, e.last.toNat⟩

namespace SymbolEntry

variable {e e' : SymbolEntry}

theorem written_injective : Function.Injective written := by
  intro e e' h
  obtain ⟨hname, hfirst, hlast⟩ := WrittenSymbol.ext_iff.mp h
  obtain ⟨name, first, last⟩ := e
  obtain ⟨name', first', last'⟩ := e'
  cases hname
  cases UInt16.toNat_inj.mp hfirst
  cases UInt16.toNat_inj.mp hlast
  rfl

/-- The addresses of a symbol in memory are words. -/
theorem exists_written {s : WrittenSymbol} (hle : s.first ≤ s.last) (hlt : s.last < 32768) :
    ∃ e : SymbolEntry, e.written = s := by
  have hlast : s.last < 65536 := by omega
  refine ⟨⟨s.name, UInt16.ofNat s.first, UInt16.ofNat s.last⟩, WrittenSymbol.ext rfl ?_ ?_⟩
  · exact UInt16.toNat_ofNat_of_lt (Nat.lt_of_le_of_lt hle hlast)
  · exact UInt16.toNat_ofNat_of_lt hlast

/-- What words have in common as numbers they have in common as words. -/
private theorem overlaps_iff_shares :
    e.written.Overlaps e'.written ↔ e.Shares e'.first e'.last := by
  constructor
  · rintro ⟨n, ⟨hfirst, hlast⟩, hfirst', hlast'⟩
    have hlt : n < 65536 := Nat.lt_of_le_of_lt hlast e.last.toNat_lt
    have hn : (UInt16.ofNat n).toNat = n := UInt16.toNat_ofNat_of_lt hlt
    refine ⟨UInt16.ofNat n, contains_iff.mpr ⟨?_, ?_⟩, ?_, ?_⟩
    all_goals rwa [UInt16.le_iff_toNat_le, hn]
  · rintro ⟨address, hcontains, hfirst', hlast'⟩
    obtain ⟨hfirst, hlast⟩ := contains_iff.mp hcontains
    exact ⟨address.toNat, ⟨hfirst, hlast⟩, hfirst', hlast'⟩

end SymbolEntry

namespace SymbolTable

variable {table table' : SymbolTable} {e : SymbolEntry}

/-- The symbols of a table as they are written, in the order in which they were added. -/
def written (table : SymbolTable) : List WrittenSymbol :=
  table.added.toList.map SymbolEntry.written

theorem written_inserted (table : SymbolTable) (e : SymbolEntry) :
    (table.inserted e).written = table.written ++ [e.written] := by
  rw [written, inserted, Array.toList_push, List.map_append, written, List.map_singleton]

theorem mem_written_iff : e.written ∈ table.written ↔ e ∈ table.added := by
  rw [written, List.mem_map_of_injective SymbolEntry.written_injective, Array.mem_toList_iff]

namespace WellFormed

variable (h : table.WellFormed)
include h

theorem consistent : WrittenSymbol.Consistent table.written where
  ranges := by
    rintro _ hmem
    obtain ⟨e, he, rfl⟩ := List.mem_map.mp hmem
    obtain ⟨hle, hlt⟩ := h.ranges e (Array.mem_toList_iff.mp he)
    exact ⟨hle, hlt⟩
  names := List.pairwise_map.mpr h.names
  apart := List.pairwise_map.mpr (h.apart.imp (mt SymbolEntry.overlaps_iff_shares.mp))

/-- A symbol is let in exactly if it is consistent with those that are there. -/
theorem add_eq_ok_iff {grown : SymbolTable} :
    table.add e.name e.first e.last = .ok grown ↔
      WrittenSymbol.Consistent (table.written ++ [e.written]) ∧ grown = table.inserted e := by
  constructor
  · intro hadd
    have hgrown := h.of_add_eq_ok hadd
    cases h.add_eq_iff.mp hadd with
    | added =>
      refine ⟨?_, rfl⟩
      have hconsistent := hgrown.consistent
      rwa [written_inserted] at hconsistent
  · rintro ⟨hconsistent, rfl⟩
    obtain ⟨hle, hlt⟩ := hconsistent.ranges e.written (by simp)
    obtain ⟨-, -, hnames⟩ := List.pairwise_append.mp hconsistent.names
    obtain ⟨-, -, hapart⟩ := List.pairwise_append.mp hconsistent.apart
    refine h.add_eq_of_answer (.added ?_ hle hlt fun other hmem hshares => ?_)
    · rintro ⟨other, hmem, hname⟩
      exact hnames other.written (mem_written_iff.mpr hmem) e.written (.head _) hname
    · exact hapart other.written (mem_written_iff.mpr hmem) e.written (.head _)
        (SymbolEntry.overlaps_iff_shares.mpr hshares)

end WellFormed

/-- Well-formed tables with the same symbols, in whatever order, give the same answers. -/
theorem WellFormed.lookup_congr (h : table.WellFormed) (h' : table'.WellFormed)
    (hperm : table.written.Perm table'.written) :
    (∀ address, table'.lookupAddress? address = table.lookupAddress? address) ∧
      ∀ name, table'.lookupName? name = table.lookupName? name := by
  have hsame (e : SymbolEntry) : e ∈ table'.added ↔ e ∈ table.added := by
    rw [← mem_written_iff, ← mem_written_iff, hperm.mem_iff]
  exact ⟨h.lookupAddress?_congr h' hsame, h.lookupName?_congr h' hsame⟩

end SymbolTable

end WordMachine
