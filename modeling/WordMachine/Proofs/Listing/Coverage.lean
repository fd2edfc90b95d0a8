import WordMachine.Proofs.Listing.Sweep
import WordMachine.Proofs.Text.Numeral

/-!
# What a listing covers

An output that takes every byte gets the whole text of a listing (`write_eq`). In a full listing the
words of an instruction can be read off its line again: `Item.shownWords` reads the four columns
that stand behind the name and the address.

The main result, `write_covers`, says that a listing shows the words of the stream from its start
on without gap or overlap, up to its stop or to where decoding fails.
-/

namespace WordMachine

open Text

/-! ### What an output gets -/

namespace Output

/-- Where all bytes of a request were taken, they stand behind what was written before. -/
private theorem eq_of_offerAll_ok {output later : Output} {written written' : Array UInt8}
    {bytes : List UInt8} (h : output.offerAll written bytes = (.ok (), written', later)) :
    written' = written ++ bytes.toArray := by
  induction bytes generalizing output written with
  | nil =>
    cases h
    simp
  | cons b bytes ih =>
    rw [offerAll] at h
    split at h
    · rw [ih h]
      simp
    · cases h

/-- The output takes every byte that it will be offered. -/
def TakesAll (output : Output) : Prop :=
  ∀ n, output.offered ≤ n → output.takes n = true

private theorem TakesAll.exists_offerAll_ok {output : Output} (h : output.TakesAll)
    (written : Array UInt8) (bytes : List UInt8) :
    ∃ written' later, output.offerAll written bytes = (.ok (), written', later) ∧
      later.TakesAll := by
  induction bytes generalizing output written with
  | nil => exact ⟨written, output, rfl, h⟩
  | cons b bytes ih =>
    have htaken : output.offer = (true, { output with offered := output.offered + 1 }) := by
      rw [offer, h _ (Nat.le_refl _)]
    have hnext : TakesAll { output with offered := output.offered + 1 } :=
      fun n hn => h n (Nat.le_of_succ_le hn)
    rw [offerAll, htaken]
    exact ih hnext (written.push b)

end Output

namespace Listing

/-- Where all items were written, the output has got their text. -/
private theorem eq_of_writeItems_ok {style : Style} {output : Output}
    {written written' : Array UInt8}
    {items : List Item} (h : writeItems style output written items = (.ok (), written')) :
    written' = written ++ (utf8 (String.join (items.map (Item.text style)))).toArray := by
  induction items generalizing output written with
  | nil =>
    cases h
    simp
  | cons item items ih =>
    rw [writeItems] at h
    split at h
    · next hoffer =>
      rw [ih h, Output.eq_of_offerAll_ok hoffer, List.map_cons, String.join_cons, utf8_append]
      simp [Array.append_assoc]
    · cases h

private theorem exists_writeItems_ok (style : Style) {output : Output} (h : output.TakesAll)
    (written : Array UInt8) (items : List Item) :
    ∃ written', writeItems style output written items = (.ok (), written') := by
  induction items generalizing output written with
  | nil => exact ⟨written, rfl⟩
  | cons item items ih =>
    obtain ⟨written', later, hoffer, hlater⟩ :=
      h.exists_offerAll_ok written (utf8 (item.text style))
    rw [writeItems, hoffer]
    exact ih hlater written'

/-- A listing that is reported to be complete has been written as a whole. -/
theorem eq_of_write_ok {style : Style} {output : Output} {listing : Listing}
    (h : (write style output listing).1 = .ok ()) :
    (write style output listing).2 = (utf8 (listing.text style)).toArray := by
  rw [write] at h ⊢
  split at h
  · next written hitems => rw [eq_of_writeItems_ok hitems, Array.empty_append, text]
  · cases h

/-- An output that takes every byte gets the text of the listing. -/
theorem write_eq (style : Style) {output : Output} (h : output.TakesAll) (listing : Listing) :
    write style output listing = (listing.result, (utf8 (listing.text style)).toArray) := by
  obtain ⟨written, hitems⟩ := exists_writeItems_ok style h #[] listing.items.toList
  rw [write, hitems, eq_of_writeItems_ok hitems, Array.empty_append, text]

/-! ### Reading the words off a line -/

/-- The words in up to `n` columns of six characters. An empty column ends them. -/
def readColumns : Nat → List Char → List Word
  | 0, _ => []
  | n + 1, line =>
    match decimalWord? ((line.take 6).filter (· ≠ ' ')) with
    | some w => w :: readColumns n (line.drop 6)
    | none => []

/-- The words on the line of an item in a full listing. Its columns stand behind that of the name,
which a long name widens, and that of the address. -/
def Item.shownWords (style : Style) : Item → List Word
  | heading _ | closing => []
  | item@(instruction position _ _) =>
    let nameLength := (style.symbols.addressName (addressOf position)).length
    readColumns 4 ((item.text style).toList.drop (max nameWidth nameLength + 3 + 8))

theorem length_wordColumn (w : Word) : (alignRight 5 w.text ++ " ").toList.length = 6 := by
  rw [String.length_toList, String.length_append, length_alignRight, Word.text,
    Nat.max_eq_left (length_decimal_le w)]
  rfl

/-- The spaces in a column do not hide its word. -/
private theorem decimalWord?_wordColumn (w : Word) :
    decimalWord? ((alignRight 5 w.text ++ " ").toList.filter (· ≠ ' ')) = some w := by
  have hdigits : w.text.toList.filter (· ≠ ' ') = w.text.toList := by
    refine List.filter_eq_self.mpr fun c hc => decide_eq_true ?_
    rintro rfl
    exact absurd (isDigit_of_mem_decimal hc) (by decide)
  have hspaces : (spaces (5 - w.text.length)).toList.filter (· ≠ ' ') = [] := by
    simp [spaces]
  rw [alignRight, String.toList_append, String.toList_append, List.filter_append,
    List.filter_append, hspaces, hdigits]
  simpa [Word.text] using decimalWord?_decimal w

private theorem readColumns_spaces (n m : Nat) (rest : List Char) (h : n ≠ 0 → 6 ≤ m) :
    readColumns n (List.replicate m ' ' ++ rest) = [] := by
  cases n with
  | zero => rfl
  | succ n =>
    have htake : (List.replicate m ' ' ++ rest).take 6 = List.replicate 6 ' ' := by
      have hm := h (Nat.succ_ne_zero n)
      rw [List.take_append_of_le_length (by simpa using hm), List.take_replicate,
        Nat.min_eq_left hm]
    rw [readColumns, htake]
    rfl

/-- Columns are read as the words that were written there. -/
private theorem readColumns_words {n : Nat} (words : List Word) (h : words.length ≤ n)
    (rest : List Char) :
    readColumns n ((String.join (words.map fun w => alignRight 5 w.text ++ " ")).toList ++
      (List.replicate ((n - words.length) * 6) ' ' ++ rest)) = words := by
  induction words generalizing n with
  | nil =>
    refine readColumns_spaces _ _ _ fun hn => ?_
    rw [List.length_nil]
    omega
  | cons w words ih =>
    obtain _ | n := n
    · cases h
    · have hlength := length_wordColumn w
      rw [List.map_cons, String.join_cons, String.toList_append, List.append_assoc, readColumns,
        List.take_left' hlength, List.drop_left' hlength, decimalWord?_wordColumn]
      dsimp only
      rw [List.length_cons, Nat.add_sub_add_right, ih (Nat.le_of_succ_le_succ h)]

/-- The line of an instruction in a full listing shows its words. -/
private theorem shownWords_instruction {style : Style} (h : style.full = true) (position : Nat)
    (i : Instruction) {words : List Word} (hlength : words.length ≤ 4) :
    (Item.instruction position i words).shownWords style = words := by
  let name := style.symbols.addressName (addressOf position)
  let columns := (String.join (words.map fun w => alignRight 5 w.text ++ " ")).toList
  have htext : ((Item.instruction position i words).text style).toList =
      (alignRight nameWidth name ++ ":  " ++
          (alignRight 5 (addressOf position).text ++ ":  ")).toList ++
        (columns ++ (List.replicate ((4 - words.length) * 6) ' ' ++
          (" " ++ remarkedText style (addressOf position) i ++ "\n").toList)) := by
    simp [Item.text, h, rawText, spaces, columns, name, List.append_assoc]
  have hprefix : (alignRight nameWidth name ++ ":  " ++
      (alignRight 5 (addressOf position).text ++ ":  ")).toList.length =
        max nameWidth name.length + 3 + 8 := by
    simp only [String.length_toList, String.length_append, length_alignRight]
    rw [Word.text, Nat.max_eq_left (length_decimal_le (addressOf position))]
    rfl
  rw [Item.shownWords, htext, List.drop_left' hprefix]
  exact readColumns_words words hlength _

/-- An instruction is listed with at most four words. -/
theorem length_extract_le_four (words : Array Word) (position : Nat) (i : Instruction) :
    (words.extract position (position + i.length)).toList.length ≤ 4 := by
  have := i.length_le_four
  simp
  omega

/-- The lines of a full listing show the words of its instructions. -/
private theorem Sweep.flatMap_shownWords {style : Style} {words : Array Word} {notes : Annotations}
    {stop position : Nat} {open? : Option Word} {items : List Item}
    {failure : Option (Word × DecodeError)}
    (h : Sweep words notes stop position open? items failure) (hfull : style.full = true) :
    items.flatMap (Item.shownWords style) = (items.filterMap Item.instruction?).flatMap
      fun (p, i) => (words.extract p (p + i.length)).toList := by
  rw [List.filterMap_eq_flatMap_toList, List.flatMap_assoc]
  refine List.flatMap_congr fun item hitem => ?_
  cases item with
  | heading _ | closing => rfl
  | instruction p i shown =>
    obtain ⟨-, -, -, rfl⟩ := h.of_mem_instruction hitem
    rw [shownWords_instruction hfull p i (length_extract_le_four words p i)]
    simp [Item.instruction?]

/-! ### The main result -/

/-- Where a listing stops does not depend on whether the addition of the limit is capped at the
greatest 64-bit number, since no stream has as many words. -/
private theorem stop_eq_capped {words : Array Word} (h : words.size < 2 ^ 64) (start : Word)
    (limit : Nat) :
    stop words start (some limit) = min (min (start.toNat + limit) (2 ^ 64 - 1)) words.size := by
  simp only [stop]
  omega

/-- **A listing covers the word stream without gap or overlap.** Let the output take every byte, so
that it gets the whole text. The instructions listed start at `start` and stand one behind the
other, each at a position below the stop; `q` is where the last one ends.

Either `q` is at the stop or beyond, and the listing is complete; or `q` lies below the stop, no
instruction can be decoded there, and the result is that error with the address of `q`. The lines of
a full listing show exactly the words from `start` up to `q`.

A complete listing goes at most three words beyond the stop, and never beyond the end of the words;
without a limit it ends there. If `start` is not below the stop, nothing is written. -/
theorem write_covers (style : Style) (words : Array Word) (start : Word) (limit : Option Nat)
    {output : Output} (h : output.TakesAll) :
    let listing := ofWords words style.notes start limit
    let stop := Listing.stop words start limit
    let outcome := write style output listing
    (outcome.2 = (utf8 (listing.text style)).toArray ∧
      ∃ q, Chain words start.toNat listing.instructions q ∧
        (∀ entry ∈ listing.instructions, entry.1 < stop) ∧
        ((stop ≤ q ∧ outcome.1 = .ok ()) ∨
          (q < stop ∧ ∃ e, Instruction.decode words q = .error e ∧
            outcome.1 = .error (.badInstruction (addressOf q) e))) ∧
        (style.full = true → listing.items.toList.flatMap (Item.shownWords style) =
          (words.extract start.toNat q).toList) ∧
        (start.toNat < stop → stop ≤ q → q ≤ min (stop + 3) words.size) ∧
        (start.toNat < stop → stop ≤ q → limit = none → q = words.size)) ∧
      (stop ≤ start.toNat → outcome.2 = #[] ∧ outcome.1 = .ok ()) ∧
      (words.size < 2 ^ 64 → ∀ n, limit = some n →
        stop = min (min (start.toNat + n) (2 ^ 64 - 1)) words.size) := by
  intro listing stop outcome
  have hsweep : Sweep words style.notes stop start.toNat none listing.items.toList
      listing.failure := sweep_ofWords words style.notes start limit
  have houtcome : outcome = (listing.result, (utf8 (listing.text style)).toArray) :=
    write_eq style h listing
  obtain ⟨q, hchain, hbelow, hend⟩ := hsweep.exists_chain
  -- A chain that comes as far as a stop behind its start is not empty.
  have hne (hstart : start.toNat < stop) (hq : stop ≤ q) : listing.instructions ≠ [] := by
    intro hnil
    rw [instructions] at hnil
    rw [hnil] at hchain
    cases hchain
    omega
  rw [houtcome]
  refine ⟨⟨rfl, q, hchain, hbelow, ?_, fun hfull => ?_, fun hstart hq => ?_,
    fun hstart hq hlimit => ?_⟩, fun hle => ?_, ?_⟩
  · obtain ⟨hq, hnone⟩ | ⟨hq, e, hdecode, hsome⟩ := hend
    · exact .inl ⟨hq, by rw [result, hnone]⟩
    · exact .inr ⟨hq, e, hdecode, by rw [result, hsome]⟩
  · rw [hsweep.flatMap_shownWords hfull, hchain.flatMap_extract]
  · have hover := hchain.le_stop_add_three (hne hstart hq) hbelow
    have hsize := hchain.le_size (hne hstart hq)
    exact Nat.le_min.mpr ⟨hover, hsize⟩
  · have hsize := hchain.le_size (hne hstart hq)
    subst hlimit
    exact Nat.le_antisymm hsize hq
  · have hempty : listing = ⟨#[], none⟩ := by
      change extend .. = _
      rw [extend, if_neg (Nat.not_lt.mpr hle)]
    rw [hempty]
    exact ⟨rfl, rfl⟩
  · rintro hsize n rfl
    exact stop_eq_capped hsize start n

/-- A stream with two instructions and a word that is none. -/
def brokenStream : Array Word := #[21, 19, 65, 30, 0]

theorem write_covers_brokenStream :
    Output.TakesAll {} ∧
      (ofWords brokenStream .empty 0 none).items.toList.flatMap
          (Item.shownWords ⟨.empty, .empty, true⟩) = [21, 19, 65] ∧
      (write ⟨.empty, .empty, true⟩ {} (ofWords brokenStream .empty 0 none)).1 =
        .error (.badInstruction 3 (.unknownOpcode 30)) := by
  have htakes : Output.TakesAll {} := fun _ _ => rfl
  have hinstructions : (ofWords brokenStream .empty 0 none).instructions =
      [(0, .noop), (1, .output (.literal 65))] := by
    decide +kernel
  obtain ⟨⟨-, q, hchain, -, hend, hshown, -⟩, -⟩ :=
    write_covers ⟨.empty, .empty, true⟩ brokenStream 0 none htakes
  rw [hinstructions] at hchain
  obtain rfl : q = 3 := by
    obtain _ | ⟨-, _ | ⟨-, _ | _⟩⟩ := hchain
    rfl
  obtain ⟨hstop, -⟩ | ⟨-, e, hdecode, hresult⟩ := hend
  · exact absurd hstop (by decide)
  · cases hdecode
    exact ⟨htakes, hshown rfl, hresult⟩

end Listing

end WordMachine
