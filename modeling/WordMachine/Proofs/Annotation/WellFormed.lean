import WordMachine.Proofs.Annotation.Parsing

/-!
# Well-formed annotations

Annotations are **well formed** when each of them is a range of addresses in memory and no two start
at the same address. Those that are read from a file are (`Annotations.wellFormed_ofText`), since
places are ranges and a second annotation of an address is refused. In well-formed annotations
looking up a block by its first address finds it (`Annotations.WellFormed.block?_eq_some_iff`).
-/

namespace WordMachine

open Text

namespace Annotations

/-- What holds of all annotations that are read from a file. -/
structure WellFormed (notes : Annotations) : Prop where
  /-- Every annotation is a range of addresses in memory. -/
  ranges : ∀ note ∈ notes.entries, note.first ≤ note.last ∧ note.last.toNat < memorySize
  /-- Different annotations start at different addresses. -/
  starts : notes.entries.Pairwise fun note note' => note.first ≠ note'.first

variable {symbols : SymbolTable} {text : List Char} {notes : Annotations}
  {note note' : Annotation} {address : Word} {remark : String}

/-- The annotations of a file are well formed: they are made by places, which denote ranges. -/
theorem wellFormed_ofText (hsymbols : symbols.WellFormed) (h : ofText symbols text = .ok notes) :
    notes.WellFormed := by
  obtain ⟨file, -, -, hmakes, hnodup⟩ := (ofText_eq_ok_iff hsymbols).mp h
  refine ⟨fun note hnote => ?_, List.pairwise_map.mp hnodup⟩
  obtain ⟨found, -, hmade⟩ := exists_line_of_mem hmakes hnote
  exact hmade.denotes.le hsymbols

/-! ### Lookups -/

namespace WellFormed

variable (h : notes.WellFormed)
include h

/-- An annotation is determined by its first address. -/
theorem eq_of_first_eq (hnote : note ∈ notes.entries) (hnote' : note' ∈ notes.entries)
    (hfirst : note.first = note'.first) : note = note' :=
  List.inj_on_of_nodup_map (List.pairwise_map.mpr h.starts) hnote hnote' hfirst

/-- An annotation is found exactly under its first address. -/
theorem startingAt?_eq_some_iff :
    notes.startingAt? address = some note ↔ note ∈ notes.entries ∧ note.first = address := by
  rw [startingAt?]
  constructor
  · intro hfound
    exact ⟨List.mem_of_find?_eq_some hfound, by simpa using List.find?_some hfound⟩
  · rintro ⟨hmem, rfl⟩
    cases hfind : notes.entries.find? (·.first = note.first) with
    | none => exact absurd (decide_eq_true rfl) (List.find?_eq_none.mp hfind note hmem)
    | some other =>
      have hfirst : other.first = note.first := by simpa using List.find?_some hfind
      rw [h.eq_of_first_eq (List.mem_of_find?_eq_some hfind) hmem hfirst]

/-- A block is found exactly under its first address. -/
theorem block?_eq_some_iff :
    notes.block? address = some note ↔
      note ∈ notes.entries ∧ note.first = address ∧ note.lines ≠ [] := by
  rw [block?, Option.filter_eq_some_iff, h.startingAt?_eq_some_iff, and_assoc]
  simp

theorem remark?_eq_some_iff :
    notes.remark? address = some remark ↔
      ∃ note ∈ notes.entries, note.first = address ∧ note.remark = some remark := by
  rw [remark?, Option.bind_eq_some_iff]
  simp only [h.startingAt?_eq_some_iff, and_assoc]

end WellFormed

end Annotations

end WordMachine
