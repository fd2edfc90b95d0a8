import WordMachine.Proofs.Instruction.OneLine
import WordMachine.Proofs.Listing.Coverage

/-!
# Columns of a listing

The **column** that a text has come to is the number of characters behind its last line feed
(`columnBehind`). Comment lines are indented by a fixed width, while instructions stand behind a
name and, in a full listing, behind an address and up to four words, each filled up to a width of
its own. The two come to the same column (`Style.indent_eq`, `length_frontText`), unless a name is
too long for its place. The main result is `columns_line_up`.
-/

namespace WordMachine

namespace Text

variable {second : String}

/-! ### The column of a text -/

/-- The number of characters behind the last line feed of a text. -/
def columnBehind (text : String) : Nat := (text.toList.reverse.takeWhile (· ≠ '\n')).length

/-- What stays on the line moves the column on. -/
theorem IsOneLine.columnBehind_append (h : IsOneLine second) (first : String) :
    columnBehind (first ++ second) = columnBehind first + second.length := by
  have hline : ∀ c ∈ second.toList.reverse, decide (c ≠ '\n') = true := by
    intro c hc
    refine decide_eq_true ?_
    rintro rfl
    exact h (List.mem_reverse.mp hc)
  rw [columnBehind, String.toList_append, List.reverse_append,
    List.takeWhile_append_of_pos hline, List.length_append, List.length_reverse,
    String.length_toList, columnBehind, Nat.add_comm]

/-- A line feed takes the column back to the start. -/
private theorem columnBehind_append_feed (text : String) : columnBehind (text ++ "\n") = 0 := by
  rw [columnBehind, String.toList_append, List.reverse_append]
  rfl

end Text

open Text

namespace Listing

variable {style : Style} {above : String} {column : Nat}

/-! ### Widths -/

/-- The indent of comment lines. -/
theorem Style.indent_eq (style : Style) : style.indent = if style.full then 66 else 33 := by
  rw [Style.indent]
  rfl

private theorem length_join_wordColumns (words : List Word) :
    (String.join (words.map fun w => alignRight 5 w.text ++ " ")).length = words.length * 6 := by
  induction words with
  | nil => rfl
  | cons w words ih =>
    have hcolumn := length_wordColumn w
    rw [String.length_toList] at hcolumn
    rw [List.map_cons, String.join_cons, String.length_append, hcolumn, ih, List.length_cons]
    omega

/-- The columns of the address and of the words have the same width for all addresses and words, as
long as there are no more than four words. -/
private theorem length_rawText (address : Word) {words : List Word} (h : words.length ≤ 4) :
    (rawText address words).length = 33 := by
  have haddress : (alignRight 5 address.text).length = 5 := by
    rw [length_alignRight, Word.text, Nat.max_eq_left (length_decimal_le address)]
  have hliterals : ":  ".length = 3 ∧ " ".length = 1 := by decide
  simp only [rawText, String.length_append, haddress, length_join_wordColumns, length_spaces,
    hliterals]
  omega

private theorem isOneLine_rawText (address : Word) (words : List Word) :
    IsOneLine (rawText address words) := by
  have hseparator : IsOneLine ":  " ∧ IsOneLine " " := by decide
  have haddress := (Word.isOneLine_text address).alignRight 5
  have hwords : IsOneLine (String.join (words.map fun w => alignRight 5 w.text ++ " ")) := by
    refine isOneLine_join fun text htext => ?_
    obtain ⟨w, -, rfl⟩ := List.mem_map.mp htext
    exact ((Word.isOneLine_text w).alignRight 5).append hseparator.2
  exact (((haddress.append hseparator.1).append hwords).append (isOneLine_spaces _)).append
    hseparator.2

/-! ### The line of an instruction -/

/-- What stands before the text of an instruction. -/
def frontText (style : Style) (position : Nat) (words : List Word) : String :=
  alignRight nameWidth (style.symbols.addressName (addressOf position)) ++ ":  " ++
    if style.full then rawText (addressOf position) words else ""

/-- What stands behind the text of an instruction. -/
def behindText (style : Style) (position : Nat) (i : Instruction) : String :=
  match style.notes.remark? (addressOf position) with
  | some remark =>
    spaces (instructionWidth - (i.render style.symbols).length) ++ "// " ++ remark
  | none => ""

variable {position : Nat} {i : Instruction} {words : List Word}

private theorem text_instruction (style : Style) (position : Nat) (i : Instruction)
    (words : List Word) :
    (Item.instruction position i words).text style =
      frontText style position words ++ i.render style.symbols ++ behindText style position i ++
        "\n" := by
  have hremarked : remarkedText style (addressOf position) i =
      i.render style.symbols ++ behindText style position i := by
    rw [remarkedText, behindText]
    cases style.notes.remark? (addressOf position) with
    | some remark => simp [alignLeft, String.append_assoc]
    | none => simp
  simp [Item.text, frontText, hremarked, String.append_assoc]

theorem length_frontText (hwords : words.length ≤ 4)
    (hname : (style.symbols.addressName (addressOf position)).length ≤ 30) :
    (frontText style position words).length = if style.full then 66 else 33 := by
  have hcolumn : (alignRight nameWidth (style.symbols.addressName (addressOf position))).length =
      30 := by
    rw [length_alignRight, nameWidth, Nat.max_eq_left hname]
  have hseparator : ":  ".length = 3 := by decide
  rw [frontText, String.length_append, String.length_append, hcolumn, hseparator]
  split
  · rw [length_rawText _ hwords]
  · rfl

private theorem isOneLine_frontText
    (hname : IsOneLine (style.symbols.addressName (addressOf position)))
    (words : List Word) : IsOneLine (frontText style position words) := by
  refine ((hname.alignRight _).append (by decide)).append ?_
  split
  · exact isOneLine_rawText _ _
  · decide

/-! ### The parts of an item -/

/-- Lines of a block comment. -/
def commentText (style : Style) (lines : List String) : String :=
  String.join (lines.map fun line => spaces style.indent ++ "// " ++ line ++ "\n")

/-- The line of an instruction, cut before and behind its text. The text starts at the given column;
so does a remark thirty characters later, if the text leaves room for it. Columns are counted from
the start of the line of the item. This is the start of a line of the listing, where `above` ends,
and it remains so as long as names hold no line feeds. -/
structure InstructionLine (style : Style) (column : Nat) (above : String) (position : Nat)
    (i : Instruction) (words : List Word) (front behind : String) : Prop where
  text_eq : (Item.instruction position i words).text style =
    front ++ i.render style.symbols ++ behind ++ "\n"
  /-- The text of the instruction stands at the column. -/
  length_front : front.length = column
  columnBehind_front : IsOneLine (style.symbols.addressName (addressOf position)) →
    columnBehind (above ++ front) = column
  behind_eq_empty : style.notes.remark? (addressOf position) = none → behind = ""
  /-- A remark stands thirty characters later, or directly behind the text. -/
  exists_gap : ∀ remark, style.notes.remark? (addressOf position) = some remark →
    ∃ gap, behind = gap ++ "// " ++ remark ∧
      ((i.render style.symbols).length ≤ 30 →
        (front ++ i.render style.symbols ++ gap).length = column + 30 ∧
        (IsOneLine (style.symbols.addressName (addressOf position)) →
          IsOneLine (i.render style.symbols) →
          columnBehind (above ++ (front ++ i.render style.symbols ++ gap)) = column + 30)) ∧
      (30 < (i.render style.symbols).length → gap = "")

/-- The parts of an item stand at the given column, below the text `above`. -/
def Item.LinesUp (style : Style) (column : Nat) (above : String) : Item → Prop
  | heading block => ∀ earlier line later, block.lines = earlier ++ line :: later →
      ∃ front, (heading block).text style =
          front ++ "// " ++ line ++ "\n" ++ commentText style later ∧
        columnBehind (above ++ front) = column
  | instruction position i words =>
      (style.symbols.addressName (addressOf position)).length ≤ 30 →
        ∃ front behind, InstructionLine style column above position i words front behind
  | closing => True

/-- Comment lines leave the column at the start of a line. -/
private theorem columnBehind_append_commentText (style : Style) (lines : List String)
    (h : columnBehind above = 0) : columnBehind (above ++ commentText style lines) = 0 := by
  induction lines generalizing above with
  | nil => simpa [commentText] using h
  | cons line lines ih =>
    rw [commentText, List.map_cons, String.join_cons, ← String.append_assoc, ← commentText]
    refine ih ?_
    rw [← String.append_assoc]
    exact columnBehind_append_feed _

/-- So does any item. -/
private theorem columnBehind_append_item (style : Style) (above : String) (item : Item) :
    columnBehind (above ++ item.text style) = 0 := by
  cases item with
  | heading block =>
    have htext : (Item.heading block).text style = "\n" ++ commentText style block.lines := rfl
    rw [htext, ← String.append_assoc]
    exact columnBehind_append_commentText style _ (columnBehind_append_feed above)
  | instruction position i words =>
    rw [Item.text, ← String.append_assoc]
    exact columnBehind_append_feed _
  | closing => exact columnBehind_append_feed above

/-- Items leave the column at the start of a line. -/
private theorem columnBehind_append_items (style : Style) (items : List Item)
    (h : columnBehind above = 0) :
    columnBehind (above ++ String.join (items.map (Item.text style))) = 0 := by
  induction items generalizing above with
  | nil => simpa using h
  | cons item items ih =>
    rw [List.map_cons, String.join_cons, ← String.append_assoc]
    exact ih (columnBehind_append_item style above item)

private theorem linesUp_heading (style : Style) (above : String) (block : Annotation) :
    (Item.heading block).LinesUp style style.indent above := by
  intro earlier line later hlines
  refine ⟨"\n" ++ commentText style earlier ++ spaces style.indent, ?_, ?_⟩
  · simp [Item.text, commentText, hlines, String.append_assoc]
  · have hearlier : columnBehind (above ++ ("\n" ++ commentText style earlier)) = 0 := by
      rw [← String.append_assoc]
      exact columnBehind_append_commentText style _ (columnBehind_append_feed above)
    rw [← String.append_assoc, (isOneLine_spaces _).columnBehind_append, hearlier, length_spaces,
      Nat.zero_add]

private theorem linesUp_instruction (habove : columnBehind above = 0) (hwords : words.length ≤ 4) :
    (Item.instruction position i words).LinesUp style style.indent above := by
  intro hname
  have hfront := length_frontText hwords hname
  rw [← style.indent_eq] at hfront
  have hcolumn (text : String) (htext : IsOneLine text) :
      columnBehind (above ++ text) = text.length := by
    rw [htext.columnBehind_append, habove, Nat.zero_add]
  refine ⟨_, _, text_instruction style position i words, hfront, fun hline => ?_, fun hnone => ?_,
    fun remark hremark => ?_⟩
  · rw [hcolumn _ (isOneLine_frontText hline words), hfront]
  · rw [behindText, hnone]
  · refine ⟨spaces (instructionWidth - (i.render style.symbols).length), ?_, fun hle => ?_,
      fun hlt => ?_⟩
    · rw [behindText, hremark]
    · have hlength : (frontText style position words ++ i.render style.symbols ++
          spaces (instructionWidth - (i.render style.symbols).length)).length =
          style.indent + 30 := by
        rw [String.length_append, String.length_append, hfront, length_spaces, instructionWidth]
        omega
      refine ⟨hlength, fun hline hline' => ?_⟩
      rw [hcolumn _ (((isOneLine_frontText hline words).append hline').append (isOneLine_spaces _)),
        hlength]
    · rw [instructionWidth, Nat.sub_eq_zero_of_le (Nat.le_of_lt hlt)]
      rfl

/-! ### The main result -/

/-- **The columns of a listing line up.** Let the output take every byte, so that it gets the whole
text, and consider any item of the listing. It starts on a line of its own. Let its column be 33, or
66 in a full listing.

If the item is a block, then the slashes before each of its lines stand at the column. If it is an
instruction, then the text of the instruction starts at the column as well, provided that the name
of its address has at most 30 characters: whatever the address is, however many words the
instruction has, and whatever these are. A remark on the address stands 30 characters further on if
the text is no longer than that, and directly behind the text otherwise.

Names from a symbol file hold no line feeds, and neither do the texts of instructions with such
names; so these are columns of the listing, not only of items. -/
theorem columns_line_up (style : Style) (words : Array Word) (start : Word) (limit : Option Nat)
    {output : Output} (h : output.TakesAll) :
    let listing := ofWords words style.notes start limit
    (write style output listing).2 = (utf8 (listing.text style)).toArray ∧
      (∀ before item after, listing.items.toList = before ++ item :: after →
        let above := String.join (before.map (Item.text style))
        listing.text style =
            above ++ item.text style ++ String.join (after.map (Item.text style)) ∧
          columnBehind above = 0 ∧ item.LinesUp style (if style.full then 66 else 33) above) ∧
      ∀ text, SymbolTable.ofText text = .ok style.symbols →
        (∀ address, IsOneLine (style.symbols.addressName address)) ∧
          ∀ i : Instruction, IsOneLine (i.render style.symbols) := by
  intro listing
  refine ⟨congrArg Prod.snd (write_eq style h listing), fun before item after hitems => ?_,
    fun text htext => ?_⟩
  · have habove : columnBehind ("" ++ String.join (before.map (Item.text style))) = 0 :=
      columnBehind_append_items style before rfl
    rw [String.empty_append] at habove
    refine ⟨?_, habove, ?_⟩
    · rw [text, hitems, List.map_append, List.map_cons, String.join_append, String.join_cons,
        String.append_assoc]
    · rw [← style.indent_eq]
      cases item with
      | heading block => exact linesUp_heading style _ block
      | instruction position i shown =>
        have hmem : .instruction position i shown ∈ listing.items.toList := by
          rw [hitems]
          exact List.mem_append_right _ (.head _)
        have hsweep := sweep_ofWords words style.notes start limit
        obtain ⟨-, -, -, rfl⟩ := hsweep.of_mem_instruction hmem
        exact linesUp_instruction habove (length_extract_le_four words position i)
      | closing => trivial
  · have hnames := SymbolTable.hasWordNames_of_ofText htext
    have htable := (SymbolTable.says_of_ofText htext).1
    exact ⟨hnames.isOneLine_addressName htable, Instruction.isOneLine_render hnames htable⟩

/-- A stream that writes a letter and halts. -/
def letterStream : Array Word := #[19, 65, 0]

/-- A comment and a remark on the letter. -/
def letterNote : Annotation := ⟨0, 1, some "start", ["Writes a letter."]⟩

/-- A full listing with them. -/
def letterStyle : Style := ⟨.empty, ⟨[letterNote]⟩, true⟩

theorem columns_line_up_letter :
    Output.TakesAll {} ∧ SymbolTable.ofText [] = .ok letterStyle.symbols ∧
      (∃ front, (Item.heading letterNote).text letterStyle = front ++ "// Writes a letter.\n" ∧
        columnBehind front = 66) ∧
      ∃ above front behind, columnBehind (above ++ front) = 66 ∧
        (Item.instruction 0 (.output (.literal 65)) [19, 65]).text letterStyle =
          front ++ "out 'A'" ++ behind ++ "\n" ∧
        ∃ gap, behind = gap ++ "// start" ∧ (front ++ "out 'A'" ++ gap).length = 96 := by
  have htakes : Output.TakesAll {} := fun _ _ => rfl
  have hsymbols : SymbolTable.ofText [] = .ok letterStyle.symbols := rfl
  have hitems : (ofWords letterStream letterStyle.notes 0 none).items.toList =
      [.heading letterNote, .instruction 0 (.output (.literal 65)) [19, 65], .closing,
        .instruction 2 .halt [0]] := by
    decide +kernel
  obtain ⟨-, hlines, hnames⟩ := columns_line_up letterStyle letterStream 0 none htakes
  obtain ⟨-, -, hheading⟩ := hlines [] _ _ hitems
  obtain ⟨indent, htext, hindent⟩ := hheading [] _ [] rfl
  obtain ⟨-, -, hinstruction⟩ := hlines [_] _ _ hitems
  obtain ⟨hname, -⟩ := hnames [] hsymbols
  obtain ⟨front, behind, hline⟩ := hinstruction (by decide +kernel)
  have hrender : (Instruction.output (.literal 65)).render letterStyle.symbols = "out 'A'" := by
    decide
  obtain ⟨gap, hgap, hcolumn, -⟩ := hline.exists_gap "start" rfl
  rw [hrender] at hcolumn
  refine ⟨htakes, hsymbols, ⟨indent, ?_, hindent⟩, _, front, behind,
    hline.columnBehind_front (hname _), hrender ▸ hline.text_eq, gap, ?_, (hcolumn (by decide)).1⟩
  · rw [htext]
    simp [commentText, String.append_assoc]
  · rw [hgap, String.append_assoc]
    rfl

end Listing

end WordMachine
