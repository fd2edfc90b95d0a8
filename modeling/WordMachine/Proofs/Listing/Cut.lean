import WordMachine.Proofs.Listing.Coverage

/-!
# Listings on an output that runs out

An output that takes `n` bytes and no more gets the first `n` bytes of a listing. The result is that
of the listing if nothing is left over, and otherwise that of the write that failed: it hides an
instruction further on that cannot be decoded.

Bytes are offered one by one, so it does not matter how a text is divided into writes
(`Output.offerPieces_eq`). A listing is one such division, with a piece for each of its items; the
result is the same if the padding, the names and the line ends are written apart (`write_cut`).
-/

namespace WordMachine

open Text

namespace Output

variable {n : Nat}

/-- Writes pieces one after the other until one of them is not taken as a whole. -/
def offerPieces (output : Output) (written : Array UInt8) :
    List (List UInt8) → Except DeviceError Unit × Array UInt8
  | [] => (.ok (), written)
  | piece :: rest =>
    match output.offerAll written piece with
    | (.ok (), written, output) => output.offerPieces written rest
    | (.error e, written, _) => (.error e, written)

/-- Where the first bytes are taken, the others are offered behind them. -/
theorem offerAll_append (output : Output) (written : Array UInt8) (first second : List UInt8) :
    output.offerAll written (first ++ second) =
      match output.offerAll written first with
      | (.ok (), written, output) => output.offerAll written second
      | (.error e, written, output) => (.error e, written, output) := by
  induction first generalizing output written with
  | nil => rfl
  | cons b first ih =>
    rw [List.cons_append, offerAll, offerAll]
    split
    · exact ih _ _
    · rfl

/-- How bytes are divided into pieces does not matter. -/
theorem offerPieces_eq (output : Output) (written : Array UInt8) (pieces : List (List UInt8)) :
    output.offerPieces written pieces =
      ((output.offerAll written pieces.flatten).1,
        (output.offerAll written pieces.flatten).2.1) := by
  induction pieces generalizing output written with
  | nil => rfl
  | cons piece pieces ih =>
    rw [offerPieces, List.flatten_cons, offerAll_append]
    split
    · exact ih _ _
    · rfl

/-- The output takes the next `n` bytes that it is offered, and no others. -/
def TakesOnly (output : Output) (n : Nat) : Prop :=
  ∀ k, output.takes (output.offered + k) = decide (k < n)

private theorem takesOnly_limited (n : Nat) : (limited (some n)).TakesOnly n := by
  intro k
  rw [show (limited (some n)).offered + k = k from Nat.zero_add k]
  rfl

/-- Bytes are taken up to the limit, and the first one behind it is refused. -/
private theorem TakesOnly.offerAll {output : Output} (h : output.TakesOnly n)
    (written : Array UInt8)
    (bytes : List UInt8) :
    (output.offerAll written bytes).1 =
        (if bytes.length ≤ n then .ok () else .error .writeFailed) ∧
      (output.offerAll written bytes).2.1 = written ++ (bytes.take n).toArray := by
  induction bytes generalizing output written n with
  | nil => simp [Output.offerAll]
  | cons b bytes ih =>
    have hoffer : output.offer =
        (decide (0 < n), { output with offered := output.offered + 1 }) :=
      Prod.ext (h 0) rfl
    rw [Output.offerAll, hoffer]
    cases n with
    | zero => simp
    | succ n =>
      have hlater : TakesOnly { output with offered := output.offered + 1 } n := by
        intro k
        have hk := h (k + 1)
        rw [Nat.add_comm k 1, ← Nat.add_assoc] at hk
        exact hk.trans (decide_eq_decide.mpr (by omega))
      obtain ⟨hresult, hwritten⟩ := ih hlater (written.push b)
      simp [hresult, hwritten]

end Output

namespace Listing

/-- Writes pieces, and gives `result` if all of them are taken. -/
def deliver (output : Output) (pieces : List (List UInt8)) (result : Except ListingError Unit) :
    Except ListingError Unit × Array UInt8 :=
  match output.offerPieces #[] pieces with
  | (.ok (), written) => (result, written)
  | (.error e, written) => (.error (.device e), written)

private theorem writeItems_eq (style : Style) (output : Output) (written : Array UInt8)
    (items : List Item) :
    writeItems style output written items =
      output.offerPieces written (items.map fun item => utf8 (item.text style)) := by
  induction items generalizing output written with
  | nil => rfl
  | cons item items ih =>
    rw [writeItems, List.map_cons, Output.offerPieces]
    obtain ⟨result, taken, later⟩ := output.offerAll written (utf8 (item.text style))
    cases result with
    | ok => exact ih later taken
    | error e => rfl

/-- A listing is delivered with a piece for each of its items. -/
private theorem write_eq_deliver (style : Style) (output : Output) (listing : Listing) :
    write style output listing =
      deliver output (listing.items.toList.map fun item => utf8 (item.text style))
        listing.result := by
  unfold write deliver
  exact writeItems_eq style output #[] listing.items.toList ▸ rfl

/-- The pieces of a listing make up its text. -/
private theorem flatten_items (style : Style) (items : List Item) :
    (items.map fun item => utf8 (item.text style)).flatten =
      utf8 (String.join (items.map (Item.text style))) := by
  induction items with
  | nil => rfl
  | cons item items ih =>
    rw [List.map_cons, List.flatten_cons, ih, List.map_cons, String.join_cons, utf8_append]

/-- An output that runs out gets the beginning of the text, and hides the result unless it gets the
whole text. -/
private theorem deliver_of_takesOnly {output : Output} {n : Nat} (h : output.TakesOnly n)
    (pieces : List (List UInt8)) (result : Except ListingError Unit) :
    deliver output pieces result =
      (if pieces.flatten.length ≤ n then result else .error (.device .writeFailed),
        (pieces.flatten.take n).toArray) := by
  obtain ⟨hresult, hwritten⟩ := h.offerAll #[] pieces.flatten
  rw [deliver, Output.offerPieces_eq, hresult, hwritten, Array.empty_append]
  by_cases hle : pieces.flatten.length ≤ n
  · rw [if_pos hle, if_pos hle]
  · rw [if_neg hle, if_neg hle]

/-! ### The main result -/

/-- **A failing output cuts a listing at a byte.** Let `whole` be the outcome with an output that
takes every byte. An output that takes `n` bytes and no more gets the first `n` bytes of the text,
or all of it if it is shorter. The result is that of `whole` if the text has at most `n` bytes, and
otherwise that a byte was not taken.

This holds for every division of the text into pieces that are written one after the other. -/
theorem write_cut (style : Style) (words : Array Word) (start : Word) (limit : Option Nat) {n : Nat}
    {unlimited limited : Output} (h : unlimited.TakesAll) (hlimited : limited.TakesOnly n) :
    let listing := ofWords words style.notes start limit
    let whole := write style unlimited listing
    let cut := write style limited listing
    cut.2.toList = whole.2.toList.take n ∧
      cut.1 = (if whole.2.size ≤ n then whole.1 else .error (.device .writeFailed)) ∧
      ∀ pieces, pieces.flatten = whole.2.toList → deliver limited pieces whole.1 = cut := by
  intro listing whole cut
  have hwhole : whole = (listing.result, (utf8 (listing.text style)).toArray) :=
    write_eq style h listing
  have hpieces (pieces : List (List UInt8)) (hflatten : pieces.flatten = whole.2.toList) :
      deliver limited pieces whole.1 =
        (if whole.2.size ≤ n then whole.1 else .error (.device .writeFailed),
          (whole.2.toList.take n).toArray) := by
    rw [deliver_of_takesOnly hlimited, hflatten, Array.length_toList]
  have hflatten : (listing.items.toList.map fun item => utf8 (item.text style)).flatten =
      whole.2.toList := by
    rw [flatten_items, hwhole, text]
  have hresult : listing.result = whole.1 := by rw [hwhole]
  have hcut : cut = deliver limited _ listing.result := write_eq_deliver style limited listing
  rw [hcut, hresult, hpieces _ hflatten]
  exact ⟨rfl, rfl, hpieces⟩

/-- A stream with one instruction. -/
def remarkedStream : Array Word := #[21, 30]

/-- A remark on this instruction that ends in a character of two bytes. -/
def remarkedStyle : Style := ⟨.empty, ⟨[⟨0, 0, some "né", []⟩]⟩, false⟩

/-- What stands before that character. -/
def remarkedLine : List UInt8 := utf8 (spaces 29 ++ "0:  nop" ++ spaces 27 ++ "// n")

private theorem length_remarkedLine : remarkedLine.length = 67 := by
  decide +kernel

private theorem write_remarkedStream :
    write remarkedStyle {} (ofWords remarkedStream remarkedStyle.notes 0 none) =
      (.error (.badInstruction 1 (.unknownOpcode 30)),
        (remarkedLine ++ [0xC3, 0xA9, 10]).toArray) := by
  rw [write_eq _ fun _ _ => rfl]
  decide +kernel

/-- With 68 bytes the character is cut in two. With 70 bytes all of the text is taken, and the
instruction that cannot be decoded is reported. -/
theorem write_cut_remarked :
    let listing := ofWords remarkedStream remarkedStyle.notes 0 none
    let cut n := write remarkedStyle (.limited (some n)) listing
    Output.TakesAll {} ∧ (∀ n, (Output.limited (some n)).TakesOnly n) ∧
      (cut 68).2.toList = remarkedLine ++ [0xC3] ∧
      (cut 68).1 = .error (.device .writeFailed) ∧
      (cut 70).1 = .error (.badInstruction 1 (.unknownOpcode 30)) := by
  intro listing cut
  have htakes : Output.TakesAll {} := fun _ _ => rfl
  obtain ⟨hwritten, hfailed, -⟩ := write_cut remarkedStyle remarkedStream 0 none htakes
    (Output.takesOnly_limited 68)
  obtain ⟨-, hfits, -⟩ := write_cut remarkedStyle remarkedStream 0 none htakes
    (Output.takesOnly_limited 70)
  rw [write_remarkedStream] at hwritten hfailed hfits
  refine ⟨htakes, Output.takesOnly_limited, hwritten.trans ?_, hfailed.trans ?_, hfits.trans ?_⟩
  · rw [List.take_append, length_remarkedLine,
      List.take_of_length_le (by simp [length_remarkedLine])]
    rfl
  · simp [length_remarkedLine]
  · simp [length_remarkedLine]

end Listing

end WordMachine
