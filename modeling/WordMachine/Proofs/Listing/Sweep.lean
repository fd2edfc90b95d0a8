import WordMachine.Listing
import WordMachine.Proofs.Instruction.Decoding

/-!
# Sweeps over a word stream

A listing is found by a loop that carries the items found so far. A **sweep** says what the loop
finds from one position on, without what it found before: nothing at the stop, a heading at most
where decoding fails, and otherwise the items of one instruction and those of the sweep behind it
(`sweep_ofWords`). Properties of listings are proved by induction on sweeps.

The instructions of a sweep stand one behind the other (`Sweep.exists_chain`): each starts where the
one before it ends, and the last of them ends at the stop or beyond, or where decoding fails.
-/

namespace WordMachine

private theorem Instruction.length_eq_of_decode {stream : Array Word} {position n : Nat}
    {i : Instruction}
    (h : decode stream position = .ok (i, n)) : n = i.length := by
  rw [decode_eq, ofWords_eq_ok_iff] at h
  exact h.2.1

/-- An instruction lies within the stream. -/
private theorem Instruction.add_length_le_of_decode {stream : Array Word} {position n : Nat}
    {i : Instruction} (h : decode stream position = .ok (i, n)) :
    position + i.length ≤ stream.size := by
  rw [decode_eq, ofWords_eq_ok_iff] at h
  have hle : i.length ≤ stream.size - position := by simpa using h.2.2.length_le
  have hpos := i.length_pos
  omega

namespace Listing

/-! ### Items of one instruction -/

/-- The heading at an address: the lines of the block that starts there, if there is one. -/
def headingAt (notes : Annotations) (address : Word) : List Item :=
  ((notes.block? address).map Item.heading).toList

/-- The last address of the commented range that is open at an instruction: the range of the block
that starts there, or else the one that was open before. -/
def openAt (notes : Annotations) (address : Word) (open? : Option Word) : Option Word :=
  ((notes.block? address).map (·.last)).or open?

/-- The end of the open range, if it lies before position `next`. -/
def closingBefore (next : Nat) (open? : Option Word) : List Item :=
  if open?.any (·.toNat < next) then [.closing] else []

/-- The items of a sweep from a position on, with a range that is open there, and where and why it
breaks off. -/
inductive Sweep (words : Array Word) (notes : Annotations) (stop : Nat) :
    Nat → Option Word → List Item → Option (Word × DecodeError) → Prop
  | stopped {position : Nat} {open? : Option Word} (h : stop ≤ position) :
    Sweep words notes stop position open? [] none
  | failed {position : Nat} {open? : Option Word} {e : DecodeError} (h : position < stop)
      (hdecode : Instruction.decode words position = .error e) :
    Sweep words notes stop position open? (headingAt notes (addressOf position))
      (some (addressOf position, e))
  | listed {position : Nat} {open? : Option Word} {i : Instruction} {rest : List Item}
      {failure : Option (Word × DecodeError)} (h : position < stop)
      (hdecode : Instruction.decode words position = .ok (i, i.length))
      (hrest : Sweep words notes stop (position + i.length)
        ((openAt notes (addressOf position) open?).filter (position + i.length ≤ ·.toNat)) rest
        failure) :
    Sweep words notes stop position open?
      (headingAt notes (addressOf position) ++
        .instruction position i (words.extract position (position + i.length)).toList ::
          (closingBefore (position + i.length) (openAt notes (addressOf position) open?) ++ rest))
      failure

variable {words : Array Word} {notes : Annotations} {stop position : Nat} {open? : Option Word}
  {items : List Item} {failure : Option (Word × DecodeError)}

/-! ### The loop -/

private theorem toList_push_heading (found : Array Item) (block? : Option Annotation) :
    (match block? with
      | some note => found.push (.heading note)
      | none => found).toList = found.toList ++ (block?.map Item.heading).toList := by
  cases block? <;> simp

private theorem openAt_eq_match (notes : Annotations) (address : Word) (open? : Option Word) :
    (match notes.block? address with
      | some note => some note.last
      | none => open?) = openAt notes address open? := by
  rw [openAt]
  cases notes.block? address <;> rfl

/-- A range that ends before `next` is closed there, and no longer open. -/
private theorem filter_of_any {next : Nat} (h : open?.any (·.toNat < next) = true) :
    open?.filter (next ≤ ·.toNat) = none ∧ closingBefore next open? = [.closing] := by
  refine ⟨?_, if_pos h⟩
  cases open? with
  | none => rfl
  | some last => simpa using h

/-- Any other range stays open. -/
private theorem filter_of_not_any {next : Nat} (h : ¬open?.any (·.toNat < next) = true) :
    open?.filter (next ≤ ·.toNat) = open? ∧ closingBefore next open? = [] := by
  refine ⟨?_, if_neg h⟩
  cases open? with
  | none => rfl
  | some last => simpa using h

/-- The loop puts the items of a sweep behind those already found. -/
theorem exists_sweep_extend (words : Array Word) (notes : Annotations) (stop position : Nat)
    (open? : Option Word) (found : Array Item) :
    ∃ items, (extend words notes stop position open? found).items.toList = found.toList ++ items ∧
      Sweep words notes stop position open? items
        (extend words notes stop position open? found).failure := by
  fun_induction extend words notes stop position open? found with
  | case1 position open? found h address block headed e hdecode =>
    exact ⟨_, toList_push_heading found block, .failed h hdecode⟩
  | case2 position open? found h address block headed now? i n hdecode next found' hcloses ih =>
    -- The open range is closed behind the instruction.
    obtain ⟨items, hitems, hsweep⟩ := ih
    have hheaded : headed.toList = found.toList ++ headingAt notes address :=
      toList_push_heading found block
    have hnow : now? = openAt notes address open? := openAt_eq_match notes address open?
    cases Instruction.length_eq_of_decode hdecode
    rw [hnow] at hcloses
    obtain ⟨hfilter, hclosing⟩ := filter_of_any hcloses
    refine ⟨_, ?_, .listed h hdecode (by rw [hfilter]; exact hsweep)⟩
    rw [hitems, Array.toList_push, Array.toList_push, hheaded]
    simp [hclosing, address, next]
  | case3 position open? found h address block headed now? i n hdecode next found' hopen ih =>
    -- It stays open, if there is one.
    obtain ⟨items, hitems, hsweep⟩ := ih
    have hheaded : headed.toList = found.toList ++ headingAt notes address :=
      toList_push_heading found block
    have hnow : now? = openAt notes address open? := openAt_eq_match notes address open?
    cases Instruction.length_eq_of_decode hdecode
    rw [hnow] at hopen
    obtain ⟨hfilter, hclosing⟩ := filter_of_not_any hopen
    refine ⟨_, ?_, .listed h hdecode (by rw [hfilter, ← hnow]; exact hsweep)⟩
    rw [hitems, Array.toList_push, hheaded]
    simp [hclosing, address, next]
  | case4 position open? found h =>
    exact ⟨[], (List.append_nil _).symm, .stopped (Nat.le_of_not_lt h)⟩

/-- A listing is the sweep from its start to its stop. -/
theorem sweep_ofWords (words : Array Word) (notes : Annotations) (start : Word)
    (limit : Option Nat) :
    Sweep words notes (Listing.stop words start limit) start.toNat none
      (ofWords words notes start limit).items.toList (ofWords words notes start limit).failure := by
  obtain ⟨items, hitems, hsweep⟩ := exists_sweep_extend words notes
    (Listing.stop words start limit) start.toNat none #[]
  rw [ofWords, hitems]
  exact hsweep

/-! ### Instructions one behind the other -/

/-- The instruction that an item lists, and its position. -/
def Item.instruction? : Item → Option (Nat × Instruction)
  | instruction position i _ => some (position, i)
  | heading _ | closing => none

/-- The instructions of a listing with their positions, in order. -/
def instructions (listing : Listing) : List (Nat × Instruction) :=
  listing.items.toList.filterMap Item.instruction?

/-- Instructions that stand in a word stream one behind the other: the first at `position`, each
other one where the one before it ends, and `next` is where the last one ends. -/
inductive Chain (words : Array Word) : Nat → List (Nat × Instruction) → Nat → Prop
  | nil {position : Nat} : Chain words position [] position
  | cons {position next : Nat} {i : Instruction} {rest : List (Nat × Instruction)}
      (hdecode : Instruction.decode words position = .ok (i, i.length))
      (hrest : Chain words (position + i.length) rest next) :
    Chain words position ((position, i) :: rest) next

namespace Chain

variable {next : Nat} {entries : List (Nat × Instruction)}

theorem le (h : Chain words position entries next) : position ≤ next := by
  induction h with
  | nil => exact Nat.le_refl _
  | cons _ _ ih => omega

theorem le_of_mem (h : Chain words position entries next) :
    ∀ entry ∈ entries, position ≤ entry.1 := by
  induction h with
  | nil => exact nofun
  | cons _ _ ih =>
    exact List.forall_mem_cons.mpr ⟨Nat.le_refl _, fun entry hentry =>
      Nat.le_trans (Nat.le_add_right _ _) (ih entry hentry)⟩

/-- Each instruction starts behind those before it. -/
theorem lt_of_mem_behind {p : Nat} {i : Instruction} {first second : List (Nat × Instruction)}
    (h : Chain words position (first ++ (p, i) :: second) next) {entry : Nat × Instruction}
    (hentry : entry ∈ second) : p < entry.1 := by
  induction first generalizing position with
  | nil =>
    obtain _ | ⟨-, hrest⟩ := h
    exact Nat.lt_of_lt_of_le (Nat.lt_add_of_pos_right i.length_pos) (hrest.le_of_mem entry hentry)
  | cons _ first ih =>
    obtain _ | ⟨-, hrest⟩ := h
    exact ih hrest

/-- An instruction ends before any that starts behind it. -/
theorem add_length_le_of_lt (h : Chain words position entries next) {p q : Nat}
    {i j : Instruction} (hp : (p, i) ∈ entries) (hq : (q, j) ∈ entries) (hlt : p < q) :
    p + i.length ≤ q := by
  induction h with
  | nil => cases hp
  | cons _ hrest ih =>
    obtain heq | hpRest := List.mem_cons.mp hp <;> obtain heq' | hqRest := List.mem_cons.mp hq
    · cases heq
      cases heq'
      exact absurd hlt (Nat.lt_irrefl _)
    · cases heq
      exact hrest.le_of_mem _ hqRest
    · cases heq'
      have hle : q + j.length ≤ p := hrest.le_of_mem _ hpRest
      omega
    · exact ih hpRest hqRest

/-- All instructions but the first start where another one ends. -/
theorem eq_or_exists_end (h : Chain words position entries next) {q : Nat} {j : Instruction}
    (hmem : (q, j) ∈ entries) :
    q = position ∨ ∃ entry ∈ entries, entry.1 < q ∧ entry.1 + entry.2.length = q := by
  induction h with
  | nil => cases hmem
  | @cons position next i rest _ _ ih =>
    obtain heq | hmem := List.mem_cons.mp hmem
    · cases heq
      exact .inl rfl
    · right
      obtain rfl | ⟨entry, hentry, hlt, hend⟩ := ih hmem
      · exact ⟨_, .head _, Nat.lt_add_of_pos_right i.length_pos, rfl⟩
      · exact ⟨entry, .tail _ hentry, hlt, hend⟩

/-- Nothing is listed from beyond the end of the stream. -/
theorem le_size (h : Chain words position entries next) (hne : entries ≠ []) :
    next ≤ words.size := by
  induction h with
  | nil => exact absurd rfl hne
  | cons hdecode hrest ih =>
    cases hrest with
    | nil => exact Instruction.add_length_le_of_decode hdecode
    | cons => exact ih (List.cons_ne_nil _ _)

/-- An instruction is at most four words long, so the last one ends less than four words behind a
stop that all of them start before. -/
theorem le_stop_add_three (h : Chain words position entries next) (hne : entries ≠ [])
    (hbelow : ∀ entry ∈ entries, entry.1 < stop) : next ≤ stop + 3 := by
  induction h with
  | nil => exact absurd rfl hne
  | @cons position next i rest _ hrest ih =>
    obtain ⟨hfirst, hbelow⟩ := List.forall_mem_cons.mp hbelow
    cases hrest with
    | nil =>
      have := i.length_le_four
      omega
    | cons => exact ih (List.cons_ne_nil _ _) hbelow

/-- The words of the instructions are the words of the stream, without gap or overlap. -/
theorem flatMap_extract (h : Chain words position entries next) :
    entries.flatMap (fun (p, i) => (words.extract p (p + i.length)).toList) =
      (words.extract position next).toList := by
  induction h with
  | nil => simp
  | @cons position next i rest hdecode hrest ih =>
    have hle := hrest.le
    rw [List.flatMap_cons, ih, ← Array.toList_append, Array.extract_append_extract,
      Nat.min_eq_left (Nat.le_add_right _ _), Nat.max_eq_right hle]

end Chain

private theorem filterMap_headingAt (notes : Annotations) (address : Word) :
    (headingAt notes address).filterMap Item.instruction? = [] := by
  rw [headingAt]
  cases notes.block? address <;> rfl

private theorem filterMap_closingBefore (next : Nat) (open? : Option Word) :
    (closingBefore next open?).filterMap Item.instruction? = [] := by
  rw [closingBefore]
  split <;> rfl

/-- Of the items of one instruction only the middle one counts. -/
theorem filterMap_listed (address : Word) (i : Instruction) (shown : List Word) (next : Nat)
    (rest : List Item) :
    (headingAt notes address ++ .instruction position i shown ::
        (closingBefore next open? ++ rest)).filterMap Item.instruction? =
      (position, i) :: rest.filterMap Item.instruction? := by
  simp [filterMap_headingAt, filterMap_closingBefore, Item.instruction?]

namespace Sweep

/-- The instructions of a sweep start before the stop and stand one behind the other. They end at
the stop or beyond, or else where decoding fails. -/
theorem exists_chain (h : Sweep words notes stop position open? items failure) :
    ∃ next, Chain words position (items.filterMap Item.instruction?) next ∧
      (∀ entry ∈ items.filterMap Item.instruction?, entry.1 < stop) ∧
      ((stop ≤ next ∧ failure = none) ∨
        (next < stop ∧ ∃ e, Instruction.decode words next = .error e ∧
          failure = some (addressOf next, e))) := by
  induction h with
  | stopped h => exact ⟨_, .nil, nofun, .inl ⟨h, rfl⟩⟩
  | failed h hdecode =>
    rw [filterMap_headingAt]
    exact ⟨_, .nil, nofun, .inr ⟨h, _, hdecode, rfl⟩⟩
  | listed h hdecode _ ih =>
    obtain ⟨next, hchain, hbelow, hend⟩ := ih
    rw [filterMap_listed]
    exact ⟨next, .cons hdecode hchain, List.forall_mem_cons.mpr ⟨h, hbelow⟩, hend⟩

/-- What is listed at a position is what decodes there. -/
theorem of_mem_instruction {p : Nat} {i : Instruction} {shown : List Word}
    (h : Sweep words notes stop position open? items failure)
    (hmem : .instruction p i shown ∈ items) :
    position ≤ p ∧ p < stop ∧ Instruction.decode words p = .ok (i, i.length) ∧
      shown = (words.extract p (p + i.length)).toList := by
  induction h with
  | stopped h => cases hmem
  | @failed position _ _ _ _ =>
    rw [headingAt] at hmem
    cases hblock : notes.block? (addressOf position) <;> simp [hblock] at hmem
  | @listed position open? j rest failure h hdecode _ ih =>
    simp only [List.mem_append, List.mem_cons] at hmem
    obtain hmem | heq | hmem | hmem := hmem
    · rw [headingAt] at hmem
      cases hblock : notes.block? (addressOf position) <;> simp [hblock] at hmem
    · cases heq
      exact ⟨Nat.le_refl _, h, hdecode, rfl⟩
    · rw [closingBefore] at hmem
      split at hmem <;> simp at hmem
    · obtain ⟨hle, hrest⟩ := ih hmem
      exact ⟨Nat.le_trans (Nat.le_add_right _ _) hle, hrest⟩

end Sweep

end Listing

end WordMachine
