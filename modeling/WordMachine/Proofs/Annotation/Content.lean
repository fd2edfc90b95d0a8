import WordMachine.Proofs.Annotation.WellFormed

/-!
# What annotations hold

The text of a file goes into its annotations as a whole, each comment once and to the place it was
written for. With `file` for what the lines of the text say, this is stated of the lookups
(`Annotations.Holds`): the block and the remark at an address are those of the place that denotes
the address as its first one, and the blocks of all places together are all comments of the file
(`Annotations.holds_of_ofText`).
-/

namespace WordMachine

open Text

namespace Annotations

/-- The lines of the block at an address. -/
def blockLines (notes : Annotations) (address : Word) : List String :=
  (notes.block? address).elim [] Annotation.lines

/-- The annotations **hold** what a file says. -/
structure Holds (notes : Annotations) (symbols : SymbolTable) (file : List AnnotationLine) :
    Prop where
  /-- Every place denotes a range of addresses in memory. -/
  ranges : ∀ place ∈ file.filterMap AnnotationLine.place?, ∃ first last,
    place.Denotes symbols first last ∧ first ≤ last ∧ last.toNat < memorySize
  /-- There is a block at an address exactly if a comment follows the place that denotes it. -/
  block_iff : ∀ address, (notes.block? address).isSome = true ↔
    ∃ before place remark below last, file = before ++ .place place remark :: below ∧
      place.Denotes symbols address last ∧ CommentFollows below
  /-- A block has the range of its place, and the comments from there to the next place. -/
  block_eq : ∀ before place remark below first last block,
    file = before ++ .place place remark :: below → place.Denotes symbols first last →
      notes.block? first = some block →
        block.first = first ∧ block.last = last ∧ block.lines = commentsBelow below
  /-- A remark at an address is that of the place that denotes it. -/
  remark_iff : ∀ address text, notes.remark? address = some text ↔
    ∃ before place body below last, file = before ++ .place place (some body) :: below ∧
      place.Denotes symbols address last ∧ String.ofList body = text
  /-- The blocks in the order of their places consist of all comments in order. -/
  comments : ∃ starts,
    List.Forall₂ (fun place start => ∃ last, place.Denotes symbols start last)
        (file.filterMap AnnotationLine.place?) starts ∧
      starts.Nodup ∧ starts.flatMap notes.blockLines = file.filterMap AnnotationLine.comment?

variable {symbols : SymbolTable} {notes : Annotations} {note note' : Annotation}
  {file before below : List AnnotationLine} {found : Section} {founds : List Section}
  {entries : List Annotation} {place : Place} {remark : Option (List Char)}
  {address first last : Word}

/-! ### Sections -/

private theorem mem_sections_cons (h : found ∈ sections file) (reading : AnnotationLine) :
    found ∈ sections (reading :: file) := by
  rcases reading with _ | body | ⟨place, remark⟩
  · exact h
  · exact h
  · exact .tail _ h

/-- A section is a place in the file with the comments below it. -/
theorem mem_sections_iff :
    found ∈ sections file ↔ ∃ before place remark below,
      file = before ++ .place place remark :: below ∧
        found = ⟨place, remark, commentsBelow below⟩ := by
  constructor
  · intro h
    induction file with
    | nil => cases h
    | cons reading file ih =>
      -- A section of the later lines stays one, with one more line before its place.
      have hlater (hmem : found ∈ sections file) : ∃ before place remark below,
          reading :: file = before ++ .place place remark :: below ∧
            found = ⟨place, remark, commentsBelow below⟩ := by
        obtain ⟨before, place, remark, below, rfl, hfound⟩ := ih hmem
        exact ⟨reading :: before, place, remark, below, rfl, hfound⟩
      rcases reading with _ | body | ⟨place, remark⟩
      · exact hlater h
      · exact hlater h
      · rcases List.mem_cons.mp h with hfound | hmem
        · exact ⟨[], place, remark, file, rfl, hfound⟩
        · exact hlater hmem
  · rintro ⟨before, place, remark, below, rfl, rfl⟩
    induction before with
    | nil => exact .head _
    | cons reading before ih => exact mem_sections_cons ih reading

/-- A section makes one annotation at most. -/
theorem Section.Makes.unique (hsymbols : symbols.WellFormed) (h : found.Makes symbols note)
    (h' : found.Makes symbols note') : note = note' := by
  obtain ⟨hfirst, hlast⟩ := h.denotes.unique hsymbols h'.denotes
  obtain ⟨-, hremark, hlines⟩ := h
  obtain ⟨-, hremark', hlines'⟩ := h'
  cases note
  cases note'
  grind

/-- The comments before the first place, and those of all sections, are all comments. -/
private theorem comments_eq (file : List AnnotationLine) :
    file.filterMap AnnotationLine.comment? =
      commentsBelow file ++ (sections file).flatMap Section.comments := by
  induction file with
  | nil => rfl
  | cons reading file ih =>
    cases reading <;> simp [sections, List.filterMap_cons, AnnotationLine.comment?, ih]

private theorem flatMap_lines (h : List.Forall₂ (Section.Makes symbols) founds entries) :
    entries.flatMap Annotation.lines = founds.flatMap Section.comments := by
  induction h with
  | nil => rfl
  | cons hmade _ ih => rw [List.flatMap_cons, List.flatMap_cons, hmade.lines_eq, ih]

/-! ### Lookups -/

/-- Each annotation has its lines under its first address. -/
private theorem WellFormed.blockLines_first (h : notes.WellFormed) (hnote : note ∈ notes.entries) :
    notes.blockLines note.first = note.lines := by
  by_cases hempty : note.lines = []
  · have hnone : notes.block? note.first = none := by
      refine Option.eq_none_iff_forall_ne_some.mpr fun block hblock => ?_
      obtain ⟨hmem, hfirst, hne⟩ := h.block?_eq_some_iff.mp hblock
      rw [h.eq_of_first_eq hmem hnote hfirst] at hne
      exact hne hempty
    rw [blockLines, hnone, hempty, Option.elim_none]
  · rw [blockLines, h.block?_eq_some_iff.mpr ⟨hnote, rfl, hempty⟩, Option.elim_some]

/-- The blocks of all annotations consist of the comments below the places. -/
private theorem WellFormed.flatMap_blockLines (h : notes.WellFormed)
    (hmakes : List.Forall₂ (Section.Makes symbols) (sections file) notes.entries)
    (hempty : commentsBelow file = []) :
    (notes.entries.map Annotation.first).flatMap notes.blockLines =
      file.filterMap AnnotationLine.comment? := by
  rw [comments_eq, hempty, List.nil_append, ← flatMap_lines hmakes, List.flatMap_map]
  exact List.flatMap_congr fun note hnote => h.blockLines_first hnote

section Made

variable (hsymbols : symbols.WellFormed) (hnotes : notes.WellFormed)
  (hmakes : List.Forall₂ (Section.Makes symbols) (sections file) notes.entries)
include hsymbols hmakes

/-- The annotations of a file are those that its places make with the comments below them. -/
private theorem mem_entries_iff :
    note ∈ notes.entries ↔ ∃ before place remark below,
      file = before ++ .place place remark :: below ∧
        Section.Makes symbols ⟨place, remark, commentsBelow below⟩ note := by
  constructor
  · intro hnote
    obtain ⟨found, hmem, hmade⟩ := exists_line_of_mem hmakes hnote
    obtain ⟨before, place, remark, below, hfile, rfl⟩ := mem_sections_iff.mp hmem
    exact ⟨before, place, remark, below, hfile, hmade⟩
  · rintro ⟨before, place, remark, below, hfile, hmade⟩
    have hmem := mem_sections_iff.mpr ⟨before, place, remark, below, hfile, rfl⟩
    obtain ⟨note', hnote', hmade'⟩ := exists_reading_of_mem hmakes hmem
    rwa [hmade.unique hsymbols hmade']

/-- The annotation of a place. -/
private theorem mem_entries_of_denotes (hfile : file = before ++ .place place remark :: below)
    (hplace : place.Denotes symbols first last) :
    ⟨first, last, remark.map String.ofList, commentsBelow below⟩ ∈ notes.entries :=
  (mem_entries_iff hsymbols hmakes).mpr
    ⟨before, place, remark, below, hfile, ⟨hplace, rfl, rfl⟩⟩

include hnotes

private theorem isSome_block?_iff :
    (notes.block? address).isSome = true ↔
      ∃ before place remark below last, file = before ++ .place place remark :: below ∧
        place.Denotes symbols address last ∧ CommentFollows below := by
  rw [Option.isSome_iff_exists]
  constructor
  · rintro ⟨note, hfound⟩
    obtain ⟨hmem, rfl, hne⟩ := hnotes.block?_eq_some_iff.mp hfound
    obtain ⟨before, place, remark, below, hfile, hmade⟩ :=
      (mem_entries_iff hsymbols hmakes).mp hmem
    rw [hmade.lines_eq, commentsBelow_ne_nil_iff] at hne
    exact ⟨before, place, remark, below, note.last, hfile, hmade.denotes, hne⟩
  · rintro ⟨before, place, remark, below, last, hfile, hplace, hfollows⟩
    have hmem := mem_entries_of_denotes hsymbols hmakes hfile hplace
    exact ⟨_,
      hnotes.block?_eq_some_iff.mpr ⟨hmem, rfl, commentsBelow_ne_nil_iff.mpr hfollows⟩⟩

private theorem block_eq_of_denotes {block : Annotation}
    (hfile : file = before ++ .place place remark :: below)
    (hplace : place.Denotes symbols first last) (hblock : notes.block? first = some block) :
    block.first = first ∧ block.last = last ∧ block.lines = commentsBelow below := by
  have hmem := mem_entries_of_denotes hsymbols hmakes hfile hplace
  obtain ⟨hmem', hfirst, -⟩ := hnotes.block?_eq_some_iff.mp hblock
  rw [hnotes.eq_of_first_eq hmem' hmem hfirst]
  exact ⟨rfl, rfl, rfl⟩

private theorem remark?_eq_some_iff_denotes {text : String} :
    notes.remark? address = some text ↔
      ∃ before place body below last, file = before ++ .place place (some body) :: below ∧
        place.Denotes symbols address last ∧ String.ofList body = text := by
  rw [hnotes.remark?_eq_some_iff]
  constructor
  · rintro ⟨note, hmem, rfl, hremark⟩
    obtain ⟨before, place, body?, below, hfile, hmade⟩ :=
      (mem_entries_iff hsymbols hmakes).mp hmem
    rw [hmade.remark_eq] at hremark
    obtain ⟨body, rfl, hbody⟩ := Option.map_eq_some_iff.mp hremark
    exact ⟨before, place, body, below, note.last, hfile, hmade.denotes, hbody⟩
  · rintro ⟨before, place, body, below, last, hfile, hplace, rfl⟩
    exact ⟨_, mem_entries_of_denotes hsymbols hmakes hfile hplace, rfl, rfl⟩

end Made

/-! ### The main result -/

/-- **The text of a file is neither lost nor doubled nor moved.** What the text says is unique, and
its annotations hold just that. -/
theorem holds_of_ofText {attempts : List SymbolEntry} {text : List Char} {notes : Annotations}
    (h : ofText (SymbolTable.ofAttempts attempts) text = .ok notes) :
    ∃ file, Says text file ∧ (∀ file', Says text file' → file' = file) ∧
      notes.Holds (SymbolTable.ofAttempts attempts) file := by
  have hsymbols := SymbolTable.wellFormed_ofAttempts attempts
  generalize SymbolTable.ofAttempts attempts = symbols at h hsymbols
  have hnotes := wellFormed_ofText hsymbols h
  obtain ⟨file, hsays, hempty, hmakes, hnodup⟩ := (ofText_eq_ok_iff hsymbols).mp h
  refine ⟨file, hsays, fun file' hsays' => says_unique hsays' hsays, ?_⟩
  refine ⟨fun place hplace => ?_, fun _ => isSome_block?_iff hsymbols hnotes hmakes,
    fun _ _ _ _ _ _ _ => block_eq_of_denotes hsymbols hnotes hmakes,
    fun _ _ => remark?_eq_some_iff_denotes hsymbols hnotes hmakes,
    notes.entries.map Annotation.first, ?_, hnodup,
    hnotes.flatMap_blockLines hmakes hempty⟩
  · rw [← map_place_sections] at hplace
    obtain ⟨found, hfound, rfl⟩ := List.mem_map.mp hplace
    obtain ⟨note, -, hmade⟩ := exists_reading_of_mem hmakes hfound
    exact ⟨note.first, note.last, hmade.denotes, hmade.denotes.le hsymbols⟩
  · rw [← map_place_sections, List.forall₂_map_left_iff, List.forall₂_map_right_iff]
    exact hmakes.imp fun _ note hmade => ⟨note.last, hmade.denotes⟩

/-- A range with comments between blank lines, a symbol without any, and an offset at the end. -/
def interleaved : List Char :=
  "007-9 // head\n\n  // one\n//two \n\nf\nf+3\t// mid\n// three".toList

/-- The annotations of `interleaved`. -/
def interleavedNotes : Annotations :=
  ⟨[⟨7, 9, some "head", ["one", "two"]⟩, ⟨10, 20, none, []⟩, ⟨13, 13, some "mid", ["three"]⟩]⟩

theorem holds_of_ofText_interleaved :
    ofText (SymbolTable.ofAttempts [⟨"f", 10, 20⟩]) interleaved = .ok interleavedNotes ∧
      ∃ file, Says interleaved file ∧ (∀ file', Says interleaved file' → file' = file) ∧
        interleavedNotes.Holds (SymbolTable.ofAttempts [⟨"f", 10, 20⟩]) file := by
  have hread : ofText (SymbolTable.ofAttempts [⟨"f", 10, 20⟩]) interleaved =
      .ok interleavedNotes := by decide +kernel
  exact ⟨hread, holds_of_ofText hread⟩

end Annotations

end WordMachine
