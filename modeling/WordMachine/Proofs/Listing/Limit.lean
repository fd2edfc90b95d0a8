import WordMachine.Proofs.Listing.Coverage

/-!
# Listings with a limit

A listing with a smaller limit is the beginning of one with a greater limit. The loop does not look
at its stop before it gets there: a sweep that breaks off does so with any stop further on
(`Sweep.of_failure`), and a complete sweep can be taken up again where it stopped
(`Sweep.exists_stopsAt`). What it hands over is its position and the range that is still open, so a
listing falls into two listings where no range is open.

The main result is `write_limit`.
-/

namespace WordMachine

open Text

namespace Listing

variable {words : Array Word} {notes : Annotations} {stop stop' position : Nat}
  {open? : Option Word} {items items' : List Item} {failure failure' : Option (Word × DecodeError)}

/-! ### Chains -/

namespace Chain

variable {middle next next' : Nat} {first second entries : List (Nat × Instruction)}

theorem append (h : Chain words position first middle) (hsecond : Chain words middle second next) :
    Chain words position (first ++ second) next := by
  induction h with
  | nil => exact hsecond
  | cons hdecode _ ih => exact .cons hdecode (ih hsecond)

/-- Instructions end at one position only. -/
theorem unique (h : Chain words position entries next) (h' : Chain words position entries next') :
    next = next' := by
  induction h with
  | nil =>
    cases h'
    rfl
  | cons _ _ ih =>
    obtain _ | ⟨-, hrest⟩ := h'
    exact ih hrest

/-- Instructions take room. -/
private theorem eq_nil_of_self (h : Chain words position entries position) : entries = [] := by
  cases h with
  | nil => rfl
  | @cons _ _ i _ _ hrest =>
    have hle := hrest.le
    have hpos := i.length_pos
    omega

end Chain

/-! ### Sweeps with another stop -/

/-- The range that is open at an instruction belongs to the block that starts there, or it was open
before. -/
private theorem of_openAt_eq_some {address last : Word}
    (h : openAt notes address open? = some last) :
    open? = some last ∨ ∃ note, .heading note ∈ headingAt notes address ∧ note.last = last := by
  rw [openAt] at h
  cases hblock : notes.block? address with
  | none =>
    rw [hblock] at h
    exact .inl h
  | some note =>
    rw [hblock] at h
    cases h
    exact .inr ⟨note, by simp [headingAt, hblock], rfl⟩

namespace Sweep

/-- From one position on a sweep finds one thing only. -/
theorem unique (h : Sweep words notes stop position open? items failure)
    (h' : Sweep words notes stop position open? items' failure') :
    items = items' ∧ failure = failure' := by
  induction h generalizing items' with
  | stopped hstop =>
    cases h' with
    | stopped _ => exact ⟨rfl, rfl⟩
    | failed hlt _ | listed hlt _ _ => exact absurd hlt (Nat.not_lt.mpr hstop)
  | failed hlt hdecode =>
    cases h' with
    | stopped hstop => exact absurd hlt (Nat.not_lt.mpr hstop)
    | failed _ hdecode' =>
      cases hdecode.symm.trans hdecode'
      exact ⟨rfl, rfl⟩
    | listed _ hdecode' _ => cases hdecode.symm.trans hdecode'
  | listed hlt hdecode _ ih =>
    cases h' with
    | stopped hstop => exact absurd hlt (Nat.not_lt.mpr hstop)
    | failed _ hdecode' => cases hdecode.symm.trans hdecode'
    | listed _ hdecode' hrest =>
      cases hdecode.symm.trans hdecode'
      obtain ⟨rfl, rfl⟩ := ih hrest
      exact ⟨rfl, rfl⟩

/-- What breaks a sweep off breaks it off with any stop further on. -/
theorem of_failure (h : Sweep words notes stop position open? items failure)
    (hfailure : failure ≠ none) (hle : stop ≤ stop') :
    Sweep words notes stop' position open? items failure := by
  induction h with
  | stopped _ => exact absurd rfl hfailure
  | failed hlt hdecode => exact .failed (Nat.lt_of_lt_of_le hlt hle) hdecode
  | listed hlt hdecode _ ih => exact .listed (Nat.lt_of_lt_of_le hlt hle) hdecode (ih hfailure)

/-- A sweep without an instruction finds nothing, or the heading of an instruction that cannot be
decoded. -/
private theorem of_filterMap_eq_nil (h : Sweep words notes stop position open? items failure)
    (hnil : items.filterMap Item.instruction? = []) :
    (items = [] ∧ failure = none) ∨
      (items = headingAt notes (addressOf position) ∧ failure ≠ none) := by
  cases h with
  | stopped _ => exact .inl ⟨rfl, rfl⟩
  | failed _ _ => exact .inr ⟨rfl, Option.some_ne_none _⟩
  | listed _ _ _ =>
    rw [filterMap_listed] at hnil
    cases hnil

/-- A complete sweep stops at position `next` with the range `later?` open. A sweep with a stop
further on finds the same items, and then those from `next` on. -/
structure StopsAt (words : Array Word) (notes : Annotations) (stop position : Nat)
    (open? : Option Word) (items : List Item) (next : Nat) (later? : Option Word) : Prop where
  chain : Chain words position (items.filterMap Item.instruction?) next
  openAt : ∀ last, later? = some last → next ≤ last.toNat ∧
    (open? = some last ∨ ∃ note, .heading note ∈ items ∧ note.last = last)
  resume {stop' : Nat} {rest : List Item} {failure : Option (Word × DecodeError)}
    (hle : stop ≤ stop') (hrest : Sweep words notes stop' next later? rest failure) :
    Sweep words notes stop' position open? (items ++ rest) failure

theorem exists_stopsAt (h : Sweep words notes stop position open? items failure)
    (hfailure : failure = none) (hopen : ∀ last, open? = some last → position ≤ last.toNat) :
    ∃ next later?, StopsAt words notes stop position open? items next later? := by
  induction h with
  | @stopped position open? _ =>
    exact ⟨position, open?, .nil, fun last hlast => ⟨hopen last hlast, .inl hlast⟩,
      fun _ hrest => hrest⟩
  | failed _ _ => cases hfailure
  | @listed position open? i rest _ hlt hdecode _ ih =>
    obtain ⟨next, later?, hstops⟩ := ih hfailure fun last hlast =>
      of_decide_eq_true (Option.filter_eq_some_iff.mp hlast).2
    refine ⟨next, later?, ?_, fun last hlast => ?_, fun hle hrest => ?_⟩
    · rw [filterMap_listed]
      exact .cons hdecode hstops.chain
    · obtain ⟨hnext, hbefore | ⟨note, hnote, rfl⟩⟩ := hstops.openAt last hlast
      · -- The range was open behind the instruction, so it was open there.
        obtain hopen | ⟨note, hnote, rfl⟩ :=
          of_openAt_eq_some (Option.filter_eq_some_iff.mp hbefore).1
        · exact ⟨hnext, .inl hopen⟩
        · exact ⟨hnext, .inr ⟨note, List.mem_append_left _ hnote, rfl⟩⟩
      · exact ⟨hnext, .inr ⟨note, by simp [hnote], rfl⟩⟩
    · have hsweep := Sweep.listed (Nat.lt_of_lt_of_le hlt hle) hdecode (hstops.resume hle hrest)
      simpa using hsweep

end Sweep

/-! ### Listings with another limit -/

/-- A smaller limit stops a listing no later; without a limit it goes on to the end. -/
private theorem stop_mono (words : Array Word) (start : Word) {limit limit' : Option Nat}
    (hle : ∀ n', limit' = some n' → ∃ n ≤ n', limit = some n) :
    Listing.stop words start limit ≤ Listing.stop words start limit' := by
  cases limit' with
  | none =>
    cases limit with
    | none => exact Nat.le_refl _
    | some n => exact Nat.min_le_right _ _
  | some n' =>
    obtain ⟨n, hn, rfl⟩ := hle n' rfl
    simp only [Listing.stop]
    omega

/-- The text of the heading at an address, if a block starts there. -/
def headingText (style : Style) (address : Word) : String :=
  String.join ((headingAt style.notes address).map (Item.text style))

theorem result_eq_ok_iff {listing : Listing} :
    listing.result = .ok () ↔ listing.failure = none := by
  rw [result]
  cases listing.failure <;> simp

/-- A listing is known by its items in order and by why it breaks off. -/
private theorem eq_of_toList_items {first second : Listing}
    (hitems : first.items.toList = second.items.toList)
    (hfailure : first.failure = second.failure) : first = second := by
  cases first
  cases second
  cases Array.toList_inj.mp hitems
  cases hfailure
  rfl

/-- The text of a listing goes on with that of the items behind it. -/
private theorem text_eq_append (style : Style) {listing first : Listing} {rest : List Item}
    (h : listing.items.toList = first.items.toList ++ rest) :
    listing.text style = first.text style ++ String.join (rest.map (Item.text style)) := by
  rw [text, text, h, List.map_append, String.join_append]

section Limits

variable {start : Word} {limit limit' : Option Nat}

/-- A listing that breaks off is the same with a greater limit. -/
private theorem ofWords_of_failure (hle : ∀ n', limit' = some n' → ∃ n ≤ n', limit = some n)
    (hfailure : (ofWords words notes start limit).failure ≠ none) :
    ofWords words notes start limit' = ofWords words notes start limit := by
  have hsweep := (sweep_ofWords words notes start limit).of_failure hfailure
    (stop_mono words start hle)
  obtain ⟨hitems, hfailure⟩ := (sweep_ofWords words notes start limit').unique hsweep
  exact eq_of_toList_items hitems hfailure

/-- A complete listing stops somewhere, and a listing with a greater limit goes on from there. -/
private theorem exists_rest (hle : ∀ n', limit' = some n' → ∃ n ≤ n', limit = some n)
    (hfailure : (ofWords words notes start limit).failure = none) :
    ∃ next later? rest,
      Sweep.StopsAt words notes (Listing.stop words start limit) start.toNat none
        (ofWords words notes start limit).items.toList next later? ∧
      Sweep words notes (Listing.stop words start limit') next later? rest
        (ofWords words notes start limit').failure ∧
      (ofWords words notes start limit').items.toList =
        (ofWords words notes start limit).items.toList ++ rest := by
  obtain ⟨next, later?, hstops⟩ :=
    (sweep_ofWords words notes start limit).exists_stopsAt hfailure nofun
  obtain ⟨rest, -, hrest⟩ := exists_sweep_extend words notes (Listing.stop words start limit') next
    later? #[]
  obtain ⟨hitems, hfailure⟩ := (sweep_ofWords words notes start limit').unique
    (hstops.resume (stop_mono words start hle) hrest)
  exact ⟨next, later?, rest, hstops, hfailure ▸ hrest, hitems⟩

/-- Two listings that end at the same position are the same, unless the one with the greater limit
breaks off there. -/
private theorem ofWords_of_chain (hle : ∀ n', limit' = some n' → ∃ n ≤ n', limit = some n)
    (hfailure : (ofWords words notes start limit).failure = none) {p : Nat}
    (hchain : Chain words start.toNat (ofWords words notes start limit).instructions p)
    (hchain' : Chain words start.toNat (ofWords words notes start limit').instructions p) :
    ofWords words notes start limit' = ofWords words notes start limit ∨
      ((ofWords words notes start limit').failure ≠ none ∧
        (ofWords words notes start limit').items.toList =
          (ofWords words notes start limit).items.toList ++ headingAt notes (addressOf p)) := by
  obtain ⟨next, later?, rest, hstops, hrest, hitems⟩ := exists_rest hle hfailure
  obtain rfl : next = p := hstops.chain.unique hchain
  have hnil : rest.filterMap Item.instruction? = [] := by
    obtain ⟨q, hq, -⟩ := hrest.exists_chain
    rw [instructions, hitems, List.filterMap_append] at hchain'
    obtain rfl : q = next := (hstops.chain.append hq).unique hchain'
    exact hq.eq_nil_of_self
  obtain ⟨rfl, hnone⟩ | ⟨rfl, hsome⟩ := hrest.of_filterMap_eq_nil hnil
  · rw [List.append_nil] at hitems
    exact .inl (eq_of_toList_items hitems (hnone.trans hfailure.symm))
  · exact .inr ⟨hsome, hitems⟩

/-- A listing falls into two where no range is open. -/
private theorem ofWords_resumed (hfailure : (ofWords words notes start limit).failure = none)
    {p : Word}
    (hchain : Chain words start.toNat (ofWords words notes start limit).instructions p.toNat)
    (hclosed : ∀ note, .heading note ∈ (ofWords words notes start limit).items.toList →
      note.last < p) :
    (ofWords words notes start none).items.toList =
        (ofWords words notes start limit).items.toList ++
          (ofWords words notes p none).items.toList ∧
      (ofWords words notes start none).failure = (ofWords words notes p none).failure := by
  have hle : ∀ n', none = some n' → ∃ n ≤ n', limit = some n := nofun
  obtain ⟨next, later?, rest, hstops, hrest, hitems⟩ := exists_rest hle hfailure
  obtain rfl : next = p.toNat := hstops.chain.unique hchain
  obtain rfl : later? = none := by
    refine Option.eq_none_iff_forall_ne_some.mpr fun last hlast => ?_
    obtain ⟨hle, hopen | ⟨note, hnote, rfl⟩⟩ := hstops.openAt last hlast
    · cases hopen
    · exact absurd (UInt16.lt_iff_toNat_lt.mp (hclosed note hnote)) (Nat.not_lt.mpr hle)
  obtain ⟨rfl, hfailure⟩ := hrest.unique (sweep_ofWords words notes p none)
  exact ⟨hitems, hfailure⟩

end Limits

/-! ### The main result -/

/-- **A listing with a smaller limit is a prefix.** Let the output take every byte, and let the
first limit be no greater than the second one, where no limit is the greatest. The text with the
first limit is a prefix of the text with the second one. If the first listing breaks off, the second
one is the same.

If both listings end at the same position, they are the same, unless the second one breaks off there
and the first one does not. Then its text goes on with the heading of the block that starts there,
if there is one.

If the first listing is complete and ends at an address `p` with no listed block that reaches `p`,
then the listing without a limit is its text followed by the listing without a limit from `p` on. -/
theorem write_limit (style : Style) (words : Array Word) (start : Word)
    {limit limit' : Option Nat} (hle : ∀ n', limit' = some n' → ∃ n ≤ n', limit = some n)
    {output : Output} (h : output.TakesAll) :
    let listing := ofWords words style.notes start limit
    let listing' := ofWords words style.notes start limit'
    let outcome := write style output listing
    let outcome' := write style output listing'
    outcome.2.toList <+: outcome'.2.toList ∧
      (∀ e, outcome.1 = .error e → outcome' = outcome) ∧
      (∀ p, Chain words start.toNat listing.instructions p →
        Chain words start.toNat listing'.instructions p →
        (outcome'.1 = outcome.1 → outcome' = outcome) ∧
        (outcome'.1 ≠ outcome.1 →
          outcome'.2 = outcome.2 ++ (utf8 (headingText style (addressOf p))).toArray)) ∧
      ∀ p : Word, outcome.1 = .ok () → Chain words start.toNat listing.instructions p.toNat →
        (∀ note, .heading note ∈ listing.items.toList → note.last < p) →
        let unlimited := write style output (ofWords words style.notes start none)
        let rest := write style output (ofWords words style.notes p none)
        unlimited = (rest.1, outcome.2 ++ rest.2) := by
  intro listing listing' outcome outcome'
  have houtcome : outcome = (listing.result, (utf8 (listing.text style)).toArray) :=
    write_eq style h listing
  have houtcome' : outcome' = (listing'.result, (utf8 (listing'.text style)).toArray) :=
    write_eq style h listing'
  by_cases hfailure : listing.failure = none
  · have hok : outcome.1 = .ok () := by rw [houtcome, result_eq_ok_iff.mpr hfailure]
    refine ⟨?_, fun e he => ?_, fun p hchain hchain' => ?_, fun p _ hchain hclosed => ?_⟩
    · obtain ⟨_, _, rest, -, -, hitems⟩ := exists_rest hle hfailure
      rw [houtcome, houtcome', text_eq_append style hitems, utf8_append]
      exact List.prefix_append _ _
    · rw [hok] at he
      cases he
    · obtain hsame | ⟨hsome, hitems⟩ := ofWords_of_chain hle hfailure hchain hchain'
      · have hsame : outcome' = outcome := congrArg (write style output) hsame
        exact ⟨fun _ => hsame, fun hne => absurd (congrArg Prod.fst hsame) hne⟩
      · have hne : outcome'.1 ≠ outcome.1 := by
          rw [hok, houtcome']
          exact mt result_eq_ok_iff.mp hsome
        refine ⟨fun heq => absurd heq hne, fun _ => ?_⟩
        rw [houtcome, houtcome', text_eq_append style hitems, utf8_append]
        exact (List.append_toArray ..).symm
    · obtain ⟨hitems, hrest⟩ := ofWords_resumed hfailure hchain hclosed
      intro unlimited rest
      have hunlimited : unlimited = _ := write_eq style h (ofWords words style.notes start none)
      have hrests : rest = _ := write_eq style h (ofWords words style.notes p none)
      rw [hunlimited, hrests, houtcome, text_eq_append style hitems, utf8_append, result, hrest,
        ← List.append_toArray]
      rfl
  · have hsame : outcome' = outcome :=
      congrArg (write style output) (ofWords_of_failure hle hfailure)
    have hne : outcome.1 ≠ .ok () := by
      rw [houtcome]
      exact mt result_eq_ok_iff.mp hfailure
    rw [hsame]
    exact ⟨List.prefix_rfl, fun _ _ => rfl, fun _ _ _ => ⟨fun _ => rfl, fun hne => absurd rfl hne⟩,
      fun _ hok => absurd hok hne⟩

/-- Blocks over the instructions of `brokenStream` and over the words behind them. -/
def brokenNotes : Annotations := ⟨[⟨0, 2, none, ["code"]⟩, ⟨3, 4, none, ["data"]⟩]⟩

/-- How `brokenStream` is listed with these blocks. -/
def brokenStyle : Style := ⟨.empty, brokenNotes, false⟩

/-- With a limit of two or three words the listing ends behind the second instruction, where the
first block is closed. -/
private theorem ends_brokenStream {limit : Option Nat} (h : limit = some 2 ∨ limit = some 3) :
    (ofWords brokenStream brokenNotes 0 limit).failure = none ∧
      Chain brokenStream 0 (ofWords brokenStream brokenNotes 0 limit).instructions 3 ∧
      ∀ note, .heading note ∈ (ofWords brokenStream brokenNotes 0 limit).items.toList →
        note.last < 3 := by
  have hlisting : ofWords brokenStream brokenNotes 0 limit =
      ⟨#[.heading ⟨0, 2, none, ["code"]⟩, .instruction 0 .noop [21],
        .instruction 1 (.output (.literal 65)) [19, 65], .closing], none⟩ := by
    obtain rfl | rfl := h <;> decide +kernel
  rw [hlisting]
  refine ⟨rfl, .cons rfl (.cons rfl .nil), fun note hnote => ?_⟩
  obtain rfl : note = ⟨0, 2, none, ["code"]⟩ := by simpa using hnote
  decide

theorem write_limit_straddling :
    (∀ n', some 3 = some n' → ∃ n ≤ n', some 2 = some n) ∧ Output.TakesAll {} ∧
      write brokenStyle {} (ofWords brokenStream brokenNotes 0 (some 3)) =
        write brokenStyle {} (ofWords brokenStream brokenNotes 0 (some 2)) ∧
      write brokenStyle {} (ofWords brokenStream brokenNotes 0 none) =
        (.error (.badInstruction 3 (.unknownOpcode 30)),
          (write brokenStyle {} (ofWords brokenStream brokenNotes 0 (some 2))).2 ++
            (utf8 (headingText brokenStyle 3)).toArray) := by
  have hle : ∀ n', some 3 = some n' → ∃ n ≤ n', some 2 = some n := by
    rintro _ ⟨⟩
    exact ⟨2, by decide, rfl⟩
  have htakes : Output.TakesAll {} := fun _ _ => rfl
  obtain ⟨hfirst, hchain, hclosed⟩ := ends_brokenStream (.inl rfl)
  obtain ⟨hsecond, hchain', -⟩ := ends_brokenStream (.inr rfl)
  have hok {limit : Option Nat} (h : (ofWords brokenStream brokenNotes 0 limit).failure = none) :
      (write brokenStyle {} (ofWords brokenStream brokenNotes 0 limit)).1 = .ok () := by
    rw [write_eq brokenStyle htakes]
    exact result_eq_ok_iff.mpr h
  have hbehind : ofWords brokenStream brokenNotes 3 none =
      ⟨#[.heading ⟨3, 4, none, ["data"]⟩], some (3, .unknownOpcode 30)⟩ := by
    decide +kernel
  obtain ⟨-, -, hends, hresumed⟩ := write_limit brokenStyle brokenStream 0 hle htakes
  refine ⟨hle, htakes, (hends 3 hchain hchain').1 ((hok hsecond).trans (hok hfirst).symm), ?_⟩
  refine (hresumed 3 (hok hfirst) hchain hclosed).trans ?_
  have hwritten := write_eq brokenStyle htakes (ofWords brokenStream brokenStyle.notes 3 none)
  rw [hwritten, show ofWords brokenStream brokenStyle.notes 3 none = _ from hbehind]
  rfl

end Listing

end WordMachine
