import WordMachine.Image
import WordMachine.Proofs.Annotation.WellFormed
import WordMachine.Proofs.Listing.Coverage

/-!
# Block comments in a listing

The lines of a block stand directly before the instruction at which the block starts. The loop keeps
the end of one range only, so a block that starts within another one takes its place. What comes
behind an instruction is decided by the **latest** block that opened up to there (`openedBy`): an
empty line follows exactly if the latest block ends within the instruction
(`Sweep.around_instruction`).

The main result, `block_comments`, is about annotations that are read from a file. Every listed
block has its heading, and the end of a block is marked unless another one opens before it is
reached. A block around another one may stay open (`outer_block_not_closed`).
-/

namespace WordMachine

open Text

namespace Listing

/-! ### Items next to an instruction -/

/-- An element that does not occur in the first of two lists is found in the second. -/
private theorem exists_split_of_notMem {α : Type} {x : α} {first second before after : List α}
    (hx : x ∉ first) (h : first ++ second = before ++ x :: after) :
    ∃ middle, before = first ++ middle ∧ second = middle ++ x :: after := by
  obtain ⟨middle, hbefore, hsecond⟩ | ⟨middle, hfirst, hafter⟩ := List.append_eq_append_iff.mp h
  · exact ⟨middle, hbefore, hsecond⟩
  · cases middle with
    | nil => exact ⟨[], by simpa using hfirst.symm, hafter.symm⟩
    | cons y middle =>
      cases hafter
      exact absurd (by simp [hfirst]) hx

variable {words : Array Word} {notes : Annotations} {stop position : Nat} {open? : Option Word}
  {items before after : List Item} {failure : Option (Word × DecodeError)} {q : Nat}
  {i j : Instruction} {shown : List Word}

private theorem instruction_notMem_headingAt (address : Word) :
    .instruction q j shown ∉ headingAt notes address := by
  rw [headingAt]
  cases notes.block? address <;> simp

private theorem instruction_notMem_closingBefore (next : Nat) :
    .instruction q j shown ∉ closingBefore next open? := by
  rw [closingBefore]
  split <;> simp

/-- No range is closed before the first instruction of a sweep. -/
private theorem Sweep.head?_ne_closing (h : Sweep words notes stop position open? items failure) :
    items.head? ≠ some .closing := by
  have hheading (address : Word) (rest : List Item) (hrest : rest.head? ≠ some .closing) :
      (headingAt notes address ++ rest).head? ≠ some .closing := by
    rw [headingAt]
    cases notes.block? address with
    | none => exact hrest
    | some note => simp
  cases h with
  | stopped _ => simp
  | failed _ _ =>
    have hhead := hheading (addressOf position) [] (by simp)
    rwa [List.append_nil] at hhead
  | listed _ _ _ => exact hheading _ _ (by simp)

private theorem head?_closingBefore (next : Nat) {rest : List Item}
    (hrest : rest.head? ≠ some .closing) :
    (closingBefore next open? ++ rest).head? = some .closing ↔
      ∃ last, open? = some last ∧ last.toNat < next := by
  rw [closingBefore]
  cases open? with
  | none => simpa using hrest
  | some last =>
    by_cases hlast : last.toNat < next
    · simp [hlast]
    · simpa [hlast] using hrest

/-! ### The latest block -/

/-- The blocks that open at instructions up to a position, in order. -/
def openedBy (notes : Annotations) (entries : List (Nat × Instruction)) (position : Nat) :
    List Annotation :=
  (entries.filter (·.1 ≤ position)).filterMap fun entry => notes.block? (addressOf entry.1)

theorem openedBy_cons {entries : List (Nat × Instruction)} (hle : position ≤ q) :
    openedBy notes ((position, i) :: entries) q =
      (notes.block? (addressOf position)).toList ++ openedBy notes entries q := by
  have hfilter : ((position, i) :: entries).filter (·.1 ≤ q) =
      (position, i) :: entries.filter (·.1 ≤ q) := List.filter_cons_of_pos (by simpa using hle)
  rw [openedBy, hfilter, List.filterMap_cons]
  cases notes.block? (addressOf position) <;> rfl

private theorem openedBy_eq_nil {entries : List (Nat × Instruction)}
    (h : ∀ entry ∈ entries, q < entry.1) : openedBy notes entries q = [] := by
  have hnone : entries.filter (·.1 ≤ q) = [] := by
    refine List.filter_eq_nil_iff.mpr fun entry hentry => ?_
    simpa using h entry hentry
  rw [openedBy, hnone, List.filterMap_nil]

private theorem toNat_addressOf (h : position < memorySize) :
    (addressOf position).toNat = position := by
  rw [addressOf, UInt16.toNat_ofNat']
  exact Nat.mod_eq_of_lt (Nat.lt_trans h (by decide))

/-- A range that is open at a position ends there or behind it. -/
private theorem le_of_openAt (hnotes : notes.WellFormed) (hlt : position < memorySize)
    (hopen : ∀ last, open? = some last → position ≤ last.toNat) {last : Word}
    (h : openAt notes (addressOf position) open? = some last) : position ≤ last.toNat := by
  rw [openAt] at h
  cases hblock : notes.block? (addressOf position) with
  | none =>
    rw [hblock] at h
    exact hopen last h
  | some note =>
    rw [hblock] at h
    cases h
    obtain ⟨hmem, hfirst, -⟩ := hnotes.block?_eq_some_iff.mp hblock
    have hle : note.first.toNat ≤ note.last.toNat := UInt16.le_iff_toNat_le.mp
      (hnotes.ranges note hmem).1
    rwa [hfirst, toNat_addressOf hlt] at hle

/-- The latest block up to an instruction is the latest one behind a position, or else the one that
opens there, or else the range that was open before. -/
private theorem getLast?_openedBy_cons {entries : List (Nat × Instruction)} (hle : position ≤ q) :
    ((openedBy notes ((position, i) :: entries) q).getLast?.map (·.last)).or open? =
      ((openedBy notes entries q).getLast?.map (·.last)).or
        (openAt notes (addressOf position) open?) := by
  have hblock : (notes.block? (addressOf position)).toList.getLast? =
      notes.block? (addressOf position) := by
    cases notes.block? (addressOf position) <;> rfl
  rw [openedBy_cons hle, List.getLast?_append, hblock, Option.map_or, Option.or_assoc, openAt]

/-- What surrounds an instruction in a sweep. The range that is open at the start of the sweep takes
the place of the latest block as long as there is none. -/
theorem Sweep.around_instruction (hnotes : notes.WellFormed) (hstop : stop ≤ memorySize)
    (h : Sweep words notes stop position open? items failure)
    (hopen : ∀ last, open? = some last → position ≤ last.toNat)
    (hsplit : items = before ++ .instruction q j shown :: after) :
    (∀ note, notes.block? (addressOf q) = some note → before.getLast? = some (.heading note)) ∧
      (after.head? = some .closing ↔ ∃ last,
        ((openedBy notes (items.filterMap Item.instruction?) q).getLast?.map (·.last)).or open? =
          some last ∧ q ≤ last.toNat ∧ last.toNat < q + j.length) := by
  induction h generalizing before with
  | stopped _ => simp at hsplit
  | @failed position _ _ _ _ =>
    have hmem : .instruction q j shown ∈ headingAt notes (addressOf position) := by simp [hsplit]
    exact absurd hmem (instruction_notMem_headingAt _)
  | @listed position open? i rest failure hlt hdecode hrest ih =>
    let now? := openAt notes (addressOf position) open?
    have hnow (last : Word) (hlast : now? = some last) : position ≤ last.toNat :=
      le_of_openAt hnotes (Nat.lt_of_lt_of_le hlt hstop) hopen hlast
    rw [filterMap_listed]
    obtain ⟨middle, rfl, hmiddle⟩ := exists_split_of_notMem (instruction_notMem_headingAt _) hsplit
    obtain _ | ⟨first, middle⟩ := middle
    · -- The instruction itself.
      obtain ⟨⟨rfl, rfl, rfl⟩, rfl⟩ : (position = q ∧ i = j ∧ _ = shown) ∧ _ = after := by
        simpa using hmiddle
      have hlater : ∀ entry ∈ rest.filterMap Item.instruction?, position < entry.1 := by
        obtain ⟨next, hchain, -⟩ := hrest.exists_chain
        intro entry hentry
        exact Nat.lt_of_lt_of_le (Nat.lt_add_of_pos_right i.length_pos)
          (hchain.le_of_mem entry hentry)
      refine ⟨fun note hnote => by simp [headingAt, hnote], ?_⟩
      rw [head?_closingBefore _ hrest.head?_ne_closing, getLast?_openedBy_cons (Nat.le_refl _),
        openedBy_eq_nil hlater]
      exact exists_congr fun last => and_congr_right fun hlast =>
        (and_iff_right (hnow last hlast)).symm
    · -- An instruction of the rest.
      obtain ⟨rfl, hbehind⟩ := List.cons_eq_cons.mp hmiddle
      obtain ⟨tail, rfl, htail⟩ :=
        exists_split_of_notMem (instruction_notMem_closingBefore _) hbehind
      have hnext : position + i.length ≤ q :=
        (hrest.of_mem_instruction (htail ▸ List.mem_append_right tail (.head _))).1
      obtain ⟨hheading, hclosing⟩ := ih
        (fun last hlast => of_decide_eq_true (Option.filter_eq_some_iff.mp hlast).2) htail
      refine ⟨fun note hnote => ?_, ?_⟩
      · simp [List.getLast?_append, List.getLast?_cons, hheading note hnote]
      · rw [hclosing, getLast?_openedBy_cons (Nat.le_trans (Nat.le_add_right _ _) hnext)]
        cases (openedBy notes (rest.filterMap Item.instruction?) q).getLast? with
        | some latest => rfl
        | none =>
          refine exists_congr fun last => ?_
          simp only [Option.map_none, Option.none_or, Option.filter_eq_some_iff,
            decide_eq_true_eq]
          constructor
          · rintro ⟨⟨hlast, -⟩, hends⟩
            exact ⟨hlast, hends⟩
          · rintro ⟨hlast, hle, hlt⟩
            exact ⟨⟨hlast, Nat.le_trans hnext hle⟩, hle, hlt⟩

theorem openedBy_append (first second : List (Nat × Instruction)) :
    openedBy notes (first ++ second) q = openedBy notes first q ++ openedBy notes second q := by
  rw [openedBy, List.filter_append, List.filterMap_append, openedBy, openedBy]

/-- A block that opened at a listed instruction is the latest one if none opened since. -/
private theorem getLast?_openedBy_of_mem {entries : List (Nat × Instruction)} {next : Nat}
    {note : Annotation} (hchain : Chain words position entries next) {p : Nat}
    (hmem : (p, i) ∈ entries) (hle : p ≤ q) (hblock : notes.block? (addressOf p) = some note)
    (hnone : ∀ entry ∈ entries, p < entry.1 → entry.1 ≤ q →
      notes.block? (addressOf entry.1) = none) :
    (openedBy notes entries q).getLast? = some note := by
  obtain ⟨first, second, rfl⟩ := List.append_of_mem hmem
  have hsecond : openedBy notes second q = [] := by
    refine List.filterMap_eq_nil_iff.mpr fun entry hentry => ?_
    obtain ⟨hentry, hle⟩ := List.mem_filter.mp hentry
    exact hnone entry (List.mem_append_right _ (.tail _ hentry))
      (hchain.lt_of_mem_behind hentry) (of_decide_eq_true hle)
  rw [openedBy_append, openedBy_cons hle, hblock, hsecond]
  simp

/-! ### The main result -/

/-- The instruction at position `q` is the first of a listing to reach an address: it ends behind
the address, and those before it do not. -/
def ReachesFirst (listing : Listing) (address : Word) (q : Nat) (i : Instruction) : Prop :=
  address.toNat < q + i.length ∧
    ∀ entry ∈ listing.instructions, entry.1 < q → entry.1 + entry.2.length ≤ address.toNat

/-- The first instruction to reach the end of a listed block lies at or behind the block's start,
and holds the end. -/
private theorem ReachesFirst.between {listing : Listing} {next : Nat} {note : Annotation}
    (hreach : listing.ReachesFirst note.last q j)
    (hchain : Chain words position listing.instructions next)
    (hmem : (q, j) ∈ listing.instructions) (hle : note.first ≤ note.last)
    (hstart : (note.first.toNat, i) ∈ listing.instructions) :
    note.first.toNat ≤ q ∧ q ≤ note.last.toNat := by
  obtain ⟨hend, hbefore⟩ := hreach
  rw [UInt16.le_iff_toNat_le] at hle
  constructor
  · by_contra hlt
    have hends := hchain.add_length_le_of_lt hmem hstart (Nat.lt_of_not_le hlt)
    omega
  · obtain rfl | ⟨entry, hentry, hlt, hentryEnd⟩ := hchain.eq_or_exists_end hmem
    · exact Nat.le_trans (hchain.le_of_mem _ hstart) hle
    · rw [← hentryEnd]
      exact hbefore entry hentry hlt

/-- **Every listed block has its heading, and the latest one is closed.** Let the annotations be
read from a file with any symbols that were added to a table, and let the listing of an image be
complete. Then the output has got the text of its items, and the following holds of each instruction
listed.

If a block starts at the instruction, its heading stands directly before it: an empty line and the
lines of the block in order. An empty line stands directly behind the instruction exactly if the
latest block that opened at a listed instruction up to there ends within the instruction. In
particular a listed block is closed behind the first instruction that reaches its end, as long as no
other block opens behind its start up to that instruction. -/
theorem block_comments (attempts : List SymbolEntry) {commentary : List Char}
    {notes : Annotations}
    (hnotes : Annotations.ofText (.ofAttempts attempts) commentary = .ok notes)
    (image : Image) (full : Bool) (start : Word) (limit : Option Nat) (output : Output)
    (hok : (write ⟨.ofAttempts attempts, notes, full⟩ output
      (ofWords image.words notes start limit)).1 = .ok ()) :
    let style : Style := ⟨.ofAttempts attempts, notes, full⟩
    let listing := ofWords image.words notes start limit
    (write style output listing).2 = (utf8 (listing.text style)).toArray ∧
      ∀ before q j shown after,
        listing.items.toList = before ++ .instruction q j shown :: after →
        (∀ note ∈ notes.entries, note.lines ≠ [] → note.first.toNat = q →
          before.getLast? = some (.heading note)) ∧
        (after.head? = some .closing ↔ ∃ latest,
          (openedBy notes listing.instructions q).getLast? = some latest ∧
            q ≤ latest.last.toNat ∧ latest.last.toNat < q + j.length) ∧
        ∀ note ∈ notes.entries, note.lines ≠ [] →
          (∃ i, (note.first.toNat, i) ∈ listing.instructions) →
          listing.ReachesFirst note.last q j →
          (∀ entry ∈ listing.instructions, note.first.toNat < entry.1 → entry.1 ≤ q →
            notes.block? (addressOf entry.1) = none) →
          after.head? = some .closing := by
  intro style listing
  refine ⟨eq_of_write_ok hok, fun before q j shown after hsplit => ?_⟩
  have hwell := Annotations.wellFormed_ofText (SymbolTable.wellFormed_ofAttempts attempts) hnotes
  have hsweep := sweep_ofWords image.words notes start limit
  obtain ⟨next, hchain, -⟩ := hsweep.exists_chain
  have hstop : Listing.stop image.words start limit ≤ memorySize := by
    have hsize := image.size_le
    cases limit with
    | none => exact hsize
    | some limit => exact Nat.le_trans (Nat.min_le_right _ _) hsize
  have hblock {note : Annotation} (hmem : note ∈ notes.entries) (hlines : note.lines ≠ []) :
      notes.block? (addressOf note.first.toNat) = some note := by
    refine hwell.block?_eq_some_iff.mpr ⟨hmem, ?_, hlines⟩
    rw [addressOf, UInt16.ofNat_toNat]
  obtain ⟨hheading, hclosing⟩ := hsweep.around_instruction hwell hstop nofun hsplit
  have hlatest : after.head? = some .closing ↔ ∃ latest,
      (openedBy notes listing.instructions q).getLast? = some latest ∧
        q ≤ latest.last.toNat ∧ latest.last.toNat < q + j.length := by
    rw [hclosing, Option.or_none]
    simp only [Option.map_eq_some_iff, instructions, listing]
    constructor
    · rintro ⟨_, ⟨latest, hlatest, rfl⟩, hends⟩
      exact ⟨latest, hlatest, hends⟩
    · rintro ⟨latest, hlatest, hends⟩
      exact ⟨latest.last, ⟨latest, hlatest, rfl⟩, hends⟩
  refine ⟨?_, hlatest, ?_⟩
  · rintro note hnote hlines rfl
    exact hheading note (hblock hnote hlines)
  · rintro note hnote hlines ⟨i, hlisted⟩ hreach hnone
    have hmem : (q, j) ∈ listing.instructions := by
      rw [instructions, hsplit]
      simp [Item.instruction?]
    obtain ⟨hle, hends⟩ := hreach.between hchain hmem (hwell.ranges note hnote).1 hlisted
    have hopened := getLast?_openedBy_of_mem hchain hlisted hle (hblock hnote hlines) hnone
    exact hlatest.mpr ⟨note, hopened, hends, hreach.1⟩

/-- Five instructions of one word each. -/
def idleImage : Image := ⟨#[21, 21, 21, 21, 21], by decide⟩

/-- A block within another one. -/
def nestedCommentary : List Char := "0-3\n// outer\n1-2\n// inner\n".toList

/-- The blocks of `nestedCommentary`. -/
def nestedNotes : Annotations := ⟨[⟨0, 3, none, ["outer"]⟩, ⟨1, 2, none, ["inner"]⟩]⟩

/-- The listing of `idleImage` with these blocks. -/
def nestedListing : Listing := ofWords idleImage.words nestedNotes 0 none

private theorem ofText_nestedCommentary :
    Annotations.ofText .empty nestedCommentary = .ok nestedNotes := by
  decide +kernel

private theorem toList_items_nestedListing : nestedListing.items.toList =
    [.heading ⟨0, 3, none, ["outer"]⟩, .instruction 0 .noop [21],
      .heading ⟨1, 2, none, ["inner"]⟩, .instruction 1 .noop [21], .instruction 2 .noop [21],
      .closing, .instruction 3 .noop [21], .instruction 4 .noop [21]] := by
  decide +kernel

private theorem write_nestedListing :
    (write ⟨.empty, nestedNotes, false⟩ {} nestedListing).1 = .ok () := by
  rw [write_eq _ fun _ _ => rfl]
  decide +kernel

theorem block_comments_nested :
    Annotations.ofText (.ofAttempts []) nestedCommentary = .ok nestedNotes ∧
      (write ⟨.ofAttempts [], nestedNotes, false⟩ {} nestedListing).1 = .ok () ∧
      ∃ latest, (openedBy nestedNotes nestedListing.instructions 2).getLast? = some latest ∧
        2 ≤ latest.last.toNat ∧ latest.last.toNat < 2 + Instruction.noop.length := by
  have hitems : nestedListing.items.toList =
      [.heading ⟨0, 3, none, ["outer"]⟩, .instruction 0 .noop [21],
        .heading ⟨1, 2, none, ["inner"]⟩, .instruction 1 .noop [21]] ++
      .instruction 2 .noop [21] ::
        [.closing, .instruction 3 .noop [21], .instruction 4 .noop [21]] :=
    toList_items_nestedListing
  obtain ⟨-, hitem⟩ := block_comments [] ofText_nestedCommentary idleImage false 0 none {}
    write_nestedListing
  obtain ⟨-, hclosing, -⟩ := hitem _ _ _ _ _ hitems
  exact ⟨ofText_nestedCommentary, write_nestedListing, hclosing.mp rfl⟩

/-- A block around another one may stay open: the instruction at address 3 is the first to reach the
end of the outer block, and the line of address 4 follows directly. -/
theorem outer_block_not_closed :
    Annotations.ofText .empty nestedCommentary = .ok nestedNotes ∧
      (write ⟨.empty, nestedNotes, false⟩ {} nestedListing).1 = .ok () ∧
      ¬ ∀ note ∈ nestedNotes.entries, note.lines ≠ [] →
        (∃ i, (note.first.toNat, i) ∈ nestedListing.instructions) →
        ∀ before q j shown after,
          nestedListing.items.toList = before ++ .instruction q j shown :: after →
          nestedListing.ReachesFirst note.last q j → after.head? = some .closing := by
  have hitems : nestedListing.items.toList =
      [.heading ⟨0, 3, none, ["outer"]⟩, .instruction 0 .noop [21],
        .heading ⟨1, 2, none, ["inner"]⟩, .instruction 1 .noop [21], .instruction 2 .noop [21],
        .closing] ++
      .instruction 3 .noop [21] :: [.instruction 4 .noop [21]] :=
    toList_items_nestedListing
  have hinstructions : nestedListing.instructions =
      [(0, .noop), (1, .noop), (2, .noop), (3, .noop), (4, .noop)] := by
    rw [instructions, hitems]
    rfl
  have hlisted : ∃ i, (0, i) ∈ nestedListing.instructions := by
    rw [hinstructions]
    exact ⟨.noop, .head _⟩
  have hreach : nestedListing.ReachesFirst 3 3 .noop := by
    rw [ReachesFirst, hinstructions]
    decide
  refine ⟨ofText_nestedCommentary, write_nestedListing, fun hcloses => ?_⟩
  have hclosed := hcloses ⟨0, 3, none, ["outer"]⟩ (.head _) (List.cons_ne_nil _ _) hlisted
    _ _ _ _ _ hitems hreach
  cases hclosed

end Listing

end WordMachine
