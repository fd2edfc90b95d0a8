import Mathlib.Data.List.Nodup
import WordMachine.Proofs.Symbol.Insertion

/-!
# Lookups are exact

A lookup by address looks at one symbol only, the one before the rank of the address. In a
well-formed table it finds what a search through all symbols would find
(`WellFormed.lookupAddress?_eq_find?`), and a lookup by name finds that symbol again. The answer
depends only on which symbols the table has, not on the order in which they were added
(`lookup_exact`).
-/

namespace WordMachine

namespace SymbolTable

variable {table table' : SymbolTable} {e : SymbolEntry} {address offset : Word}

namespace WellFormed

variable (h : table.WellFormed)
include h

/-- The symbol that holds an address is found. -/
private theorem lookupAddress?_of_contains (hmem : e ∈ table.added) (he : e.contains address) :
    table.lookupAddress? address = some (e, address - e.first) := by
  rw [lookupAddress?, h.before?_of_contains hmem he]
  exact if_pos he

/-- Nothing but a symbol that holds the address is found. -/
theorem contains_of_lookupAddress? (hfound : table.lookupAddress? address = some (e, offset)) :
    e ∈ table.added ∧ e.contains address = true ∧ offset = address - e.first := by
  rw [lookupAddress?] at hfound
  cases hbefore : table.before? (table.rank address) with
  | none =>
    rw [hbefore] at hfound
    cases hfound
  | some found =>
    rw [hbefore] at hfound
    dsimp only at hfound
    split at hfound
    · next hcontains =>
      cases hfound
      exact ⟨(h.first_le_of_before? hbefore).1, hcontains, rfl⟩
    · cases hfound

/-- A lookup finds a symbol exactly if it holds the address, and gives the distance from its first
address. -/
theorem lookupAddress?_eq_some_iff :
    table.lookupAddress? address = some (e, offset) ↔
      e ∈ table.added ∧ e.first ≤ address ∧ address ≤ e.last ∧
        e.first.toNat + offset.toNat = address.toNat := by
  constructor
  · intro hfound
    obtain ⟨hmem, hcontains, rfl⟩ := h.contains_of_lookupAddress? hfound
    obtain ⟨hfirst, hlast⟩ := SymbolEntry.contains_iff.mp hcontains
    have hle := UInt16.le_iff_toNat_le.mp hfirst
    refine ⟨hmem, hfirst, hlast, ?_⟩
    rw [UInt16.toNat_sub_of_le _ _ hfirst]
    omega
  · rintro ⟨hmem, hfirst, hlast, hoffset⟩
    rw [h.lookupAddress?_of_contains hmem (SymbolEntry.contains_iff.mpr ⟨hfirst, hlast⟩)]
    have hoffset' : address - e.first = offset := by
      rw [← UInt16.toNat_inj, UInt16.toNat_sub_of_le _ _ hfirst]
      omega
    rw [hoffset']

theorem lookupAddress?_eq_none_iff :
    table.lookupAddress? address = none ↔
      ∀ e ∈ table.added, ¬ (e.first ≤ address ∧ address ≤ e.last) := by
  constructor
  · intro hnone e hmem hcontains
    rw [h.lookupAddress?_of_contains hmem (SymbolEntry.contains_iff.mpr hcontains)] at hnone
    cases hnone
  · intro hnot
    cases hfound : table.lookupAddress? address with
    | none => rfl
    | some found =>
      obtain ⟨hmem, hcontains, -⟩ := h.contains_of_lookupAddress? hfound
      exact absurd (SymbolEntry.contains_iff.mp hcontains) (hnot _ hmem)

/-- A lookup finds what a search through all symbols finds. -/
theorem lookupAddress?_eq_find? (address : Word) :
    table.lookupAddress? address =
      (table.added.find? (·.contains address)).map fun e => (e, address - e.first) := by
  cases hfind : table.added.find? (·.contains address) with
  | none =>
    refine h.lookupAddress?_eq_none_iff.mpr fun e hmem hcontains => ?_
    have hnot := Array.find?_eq_none.mp hfind e hmem
    exact hnot (SymbolEntry.contains_iff.mpr hcontains)
  | some e =>
    have he : e.contains address = true := by simpa using Array.find?_some hfind
    exact h.lookupAddress?_of_contains (Array.mem_of_find?_eq_some hfind) he

/-- A symbol is found under its name. -/
theorem lookupName?_name (hmem : e ∈ table.added) : table.lookupName? e.name = some e := by
  have hnames := List.inj_on_of_nodup_map (List.pairwise_map.mpr h.names)
  rw [lookupName?]
  cases hfind : table.added.find? (·.name = e.name) with
  | none =>
    have hnot := Array.find?_eq_none.mp hfind e hmem
    exact absurd (decide_eq_true rfl) hnot
  | some e' =>
    have hname : e'.name = e.name := by simpa using Array.find?_some hfind
    have hmem' := Array.mem_of_find?_eq_some hfind
    rw [hnames (Array.mem_toList_iff.mpr hmem') (Array.mem_toList_iff.mpr hmem) hname]

theorem lookupName?_eq_some_iff {name : String} :
    table.lookupName? name = some e ↔ e ∈ table.added ∧ e.name = name := by
  constructor
  · intro hfound
    exact ⟨Array.mem_of_find?_eq_some hfound, by simpa using Array.find?_some hfound⟩
  · rintro ⟨hmem, rfl⟩
    exact h.lookupName?_name hmem

end WellFormed

/-- Well-formed tables with the same symbols give the same answers. -/
theorem WellFormed.lookupAddress?_congr (h : table.WellFormed) (h' : table'.WellFormed)
    (hsame : ∀ e, e ∈ table'.added ↔ e ∈ table.added) (address : Word) :
    table'.lookupAddress? address = table.lookupAddress? address := by
  refine Option.ext fun ⟨e, offset⟩ => ?_
  rw [h'.lookupAddress?_eq_some_iff, h.lookupAddress?_eq_some_iff, hsame]

theorem WellFormed.lookupName?_congr (h : table.WellFormed) (h' : table'.WellFormed)
    (hsame : ∀ e, e ∈ table'.added ↔ e ∈ table.added) (name : String) :
    table'.lookupName? name = table.lookupName? name := by
  refine Option.ext fun e => ?_
  rw [h'.lookupName?_eq_some_iff, h.lookupName?_eq_some_iff, hsame]

/-- **Lookups are exact.** Whatever was tried to be added to a table, a lookup by address gives what
a search through all its symbols would give: the one symbol that holds the address, with the
distance from its first address, or nothing if no symbol holds it. It looks only at places that
exist. A symbol is found under its name, and any other history that lets in the same symbols leads
to the same answer. -/
theorem lookup_exact (attempts : List SymbolEntry) (address : Word) :
    let table := ofAttempts attempts
    table.lookupAddress? address =
        (table.added.find? (·.contains address)).map (fun e => (e, address - e.first)) ∧
      (∀ e offset, table.lookupAddress? address = some (e, offset) ↔
        e ∈ table.added ∧ e.first ≤ address ∧ address ≤ e.last ∧
          e.first.toNat + offset.toNat = address.toNat) ∧
      (table.lookupAddress? address = none ↔
        ∀ e ∈ table.added, ¬ (e.first ≤ address ∧ address ≤ e.last)) ∧
      (∀ (i j : Nat) (e e' : SymbolEntry), table.added[i]? = some e → table.added[j]? = some e' →
        e.contains address = true → e'.contains address = true → i = j) ∧
      table.rank address ≤ table.byFirst.size ∧
      (∀ place ∈ table.byFirst, place < table.added.size) ∧
      (∀ e ∈ table.added, table.lookupName? e.name = some e) ∧
      ∀ attempts', (∀ e, e ∈ (ofAttempts attempts').added ↔ e ∈ table.added) →
        (ofAttempts attempts').lookupAddress? address = table.lookupAddress? address := by
  intro table
  have h : table.WellFormed := wellFormed_ofAttempts attempts
  refine ⟨h.lookupAddress?_eq_find? address, fun e offset => h.lookupAddress?_eq_some_iff,
    h.lookupAddress?_eq_none_iff, fun i j e e' hi hj he he' => ?_, table.rank_le address,
    fun place hmem => h.place_lt hmem, fun e hmem => h.lookupName?_name hmem,
    fun attempts' hsame => ?_⟩
  · exact h.place_eq_of_contains hi hj he he'
  · exact h.lookupAddress?_congr (wellFormed_ofAttempts attempts') hsame address

/-- Two histories with the same symbols, one of which also saw a refusal. -/
theorem lookup_exact_reordered :
    (ofAttempts [⟨"code", 30, 40⟩, ⟨"data", 10, 20⟩, ⟨"more", 15, 35⟩]).lookupAddress? 13 =
        (ofAttempts [⟨"data", 10, 20⟩, ⟨"code", 30, 40⟩]).lookupAddress? 13 ∧
      (ofAttempts [⟨"data", 10, 20⟩, ⟨"code", 30, 40⟩]).lookupAddress? 13 =
        some (⟨"data", 10, 20⟩, 3) := by
  obtain ⟨-, hsome, -, -, -, -, -, horder⟩ :=
    lookup_exact [⟨"data", 10, 20⟩, ⟨"code", 30, 40⟩] 13
  have hadded : (ofAttempts [⟨"data", 10, 20⟩, ⟨"code", 30, 40⟩]).added =
      #[⟨"data", 10, 20⟩, ⟨"code", 30, 40⟩] := by decide +kernel
  have hadded' : (ofAttempts [⟨"code", 30, 40⟩, ⟨"data", 10, 20⟩, ⟨"more", 15, 35⟩]).added =
      #[⟨"code", 30, 40⟩, ⟨"data", 10, 20⟩] := by decide +kernel
  refine ⟨horder _ fun e => ?_, (hsome _ _).mpr ?_⟩
  · rw [hadded, hadded']
    simp [or_comm]
  · rw [hadded]
    exact ⟨by simp, by decide⟩

end SymbolTable

end WordMachine
