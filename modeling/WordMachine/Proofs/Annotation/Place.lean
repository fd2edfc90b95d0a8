import WordMachine.Proofs.Annotation.Line
import WordMachine.Proofs.Symbol.Location

/-!
# What places denote

A place that is spelled as the format has it denotes a range of addresses, or nothing
(`Place.Denotes`). Digits denote an address if all of them are digits of ASCII and their number is
one in memory, and an offset must not lead behind the last address of its symbol. Resolving a place
finds what it denotes (`Place.resolve_eq_ok_iff`).
-/

namespace WordMachine

open Text

namespace Place

/-- The digits are those of ASCII, and stand for an address in memory. -/
structure ReadsAsAddress (digits : List Char) (address : Word) : Prop where
  ascii : ∀ c ∈ digits, c.isDigit = true
  number_eq : number digits = address.toNat
  inMemory : address.toNat < memorySize

/-- The place **denotes** the addresses from `first` to `last`. The name of a symbol stands for its
whole range, and a name with an offset for one address. -/
inductive Denotes (symbols : SymbolTable) : Place → Word → Word → Prop
  | address {digits : List Char} {address : Word} (h : ReadsAsAddress digits address) :
    Denotes symbols (.addresses digits none) address address
  | range {digits digits' : List Char} {first last : Word} (hfirst : ReadsAsAddress digits first)
    (hlast : ReadsAsAddress digits' last) (hle : first ≤ last) :
    Denotes symbols (.addresses digits (some digits')) first last
  | name {e : SymbolEntry} {name : List Char} (hmem : e ∈ symbols.added)
    (hname : e.name = String.ofList name) : Denotes symbols (.symbol name none) e.first e.last
  | offset {e : SymbolEntry} {name digits : List Char} {address : Word} (hmem : e ∈ symbols.added)
    (hname : e.name = String.ofList name) (hascii : ∀ c ∈ digits, c.isDigit = true)
    (hsum : e.first.toNat + number digits = address.toNat) (hle : address ≤ e.last) :
    Denotes symbols (.symbol name (some digits)) address address

variable {symbols : SymbolTable} {place : Place} {text digits digits' name : List Char}
  {first last first' last' w : Word} {e : SymbolEntry}

/-! ### Digits -/

theorem readAddress_eq_ok_iff (h : Stretch isDecimalDigit digits) :
    readAddress digits = .ok w ↔ ReadsAsAddress digits w := by
  have hread : readAddress digits = .ok w ↔
      decimalWord? digits = some w ∧ w.toNat < memorySize := by
    rw [readAddress]
    split
    · next found hfound =>
      rw [Option.filter_eq_some_iff, decide_eq_true_iff] at hfound
      grind
    · next hnone =>
      rw [Option.filter_eq_none_iff] at hnone
      grind
  rw [hread, decimalWord?_eq_some_iff_of_stretch h]
  constructor
  · rintro ⟨⟨hascii, hnumber⟩, hlt⟩
    exact ⟨hascii, hnumber, hlt⟩
  · rintro ⟨hascii, hnumber, hlt⟩
    exact ⟨⟨hascii, hnumber⟩, hlt⟩

/-! ### Places -/

private theorem resolve_address_eq_ok_iff :
    (addresses digits none).resolve symbols = .ok (first, last) ↔
      readAddress digits = .ok first ∧ first = last := by
  simp only [resolve, bind, Except.bind]
  cases readAddress digits with
  | error e => simp
  | ok address =>
    have hle : ¬ address < address := UInt16.lt_irrefl address
    simp only [pure, Except.pure, if_neg hle, Except.ok.injEq, Prod.mk.injEq]
    grind

private theorem resolve_range_eq_ok_iff :
    (addresses digits (some digits')).resolve symbols = .ok (first, last) ↔
      readAddress digits = .ok first ∧ readAddress digits' = .ok last ∧ first ≤ last := by
  simp only [resolve, bind, Except.bind]
  cases readAddress digits with
  | error e => simp
  | ok address =>
    cases readAddress digits' with
    | error e => simp
    | ok address' =>
      simp only [pure, Except.pure, Except.ok.injEq]
      split
      · next hlt =>
        have hnot := UInt16.not_le.mpr hlt
        simp only [throw, throwThe, MonadExceptOf.throw]
        grind
      · next hle =>
        have hle := UInt16.not_lt.mp hle
        grind

private theorem resolve_name_eq_ok_iff :
    (symbol name none).resolve symbols = .ok (first, last) ↔
      ∃ e, symbols.lookupName? (String.ofList name) = some e ∧ e.first = first ∧ e.last = last := by
  simp only [resolve]
  cases symbols.lookupName? (String.ofList name) with
  | none => simp [throw, throwThe, MonadExceptOf.throw]
  | some e => simp [pure, Except.pure]

private theorem resolve_offset_eq_ok_iff :
    (symbol name (some digits)).resolve symbols = .ok (first, last) ↔
      ∃ e, symbols.lookupName? (String.ofList name) = some e ∧
        (decimalWord? digits).bind e.addressAt? = some first ∧ first = last := by
  simp only [resolve]
  cases symbols.lookupName? (String.ofList name) with
  | none => simp [throw, throwThe, MonadExceptOf.throw]
  | some e =>
    simp only [Option.some.injEq, exists_eq_left']
    cases (decimalWord? digits).bind e.addressAt? with
    | none => simp [throw, throwThe, MonadExceptOf.throw]
    | some address =>
      simp only [pure, Except.pure, Except.ok.injEq, Prod.mk.injEq, Option.some.injEq]
      grind

/-- An offset denotes the address that is so far from the first one of the symbol. -/
theorem bind_addressAt?_eq_some_iff (h : Stretch isDecimalDigit digits) :
    (decimalWord? digits).bind e.addressAt? = some w ↔
      (∀ c ∈ digits, c.isDigit = true) ∧ e.first.toNat + number digits = w.toNat ∧ w ≤ e.last := by
  rw [Option.bind_eq_some_iff]
  constructor
  · rintro ⟨offset, hread, haddress⟩
    obtain ⟨hascii, hnumber⟩ := (decimalWord?_eq_some_iff_of_stretch h).mp hread
    rw [SymbolEntry.addressAt?_eq_some_iff, ← hnumber] at haddress
    exact ⟨hascii, haddress⟩
  · rintro ⟨hascii, hsum, hle⟩
    have hlt : number digits < UInt16.size := Nat.lt_of_le_of_lt (by omega) w.toNat_lt
    have hoffset : (UInt16.ofNat (number digits)).toNat = number digits :=
      UInt16.toNat_ofNat_of_lt' hlt
    refine ⟨UInt16.ofNat (number digits), ?_, ?_⟩
    · exact (decimalWord?_eq_some_iff_of_stretch h).mpr ⟨hascii, hoffset.symm⟩
    · rw [SymbolEntry.addressAt?_eq_some_iff, hoffset]
      exact ⟨hsum, hle⟩

/-- **Resolving a place is exact.** -/
theorem resolve_eq_ok_iff (hsymbols : symbols.WellFormed) (h : place.Spells text) :
    place.resolve symbols = .ok (first, last) ↔ place.Denotes symbols first last := by
  cases h with
  | address hdigits =>
    rw [resolve_address_eq_ok_iff, readAddress_eq_ok_iff hdigits]
    constructor
    · rintro ⟨haddress, rfl⟩
      exact .address haddress
    · rintro ⟨haddress⟩
      exact ⟨haddress, rfl⟩
  | range hfirst hlast =>
    rw [resolve_range_eq_ok_iff, readAddress_eq_ok_iff hfirst, readAddress_eq_ok_iff hlast]
    constructor
    · rintro ⟨hfirst, hlast, hle⟩
      exact .range hfirst hlast hle
    · rintro (_ | ⟨hfirst, hlast, hle⟩)
      exact ⟨hfirst, hlast, hle⟩
  | name _ _ =>
    rw [resolve_name_eq_ok_iff]
    constructor
    · rintro ⟨e, hfound, rfl, rfl⟩
      obtain ⟨hmem, hname⟩ := hsymbols.lookupName?_eq_some_iff.mp hfound
      exact .name hmem hname
    · rintro (_ | _ | ⟨hmem, hname⟩)
      exact ⟨_, hsymbols.lookupName?_eq_some_iff.mpr ⟨hmem, hname⟩, rfl, rfl⟩
  | offset hname hdigits =>
    rw [resolve_offset_eq_ok_iff]
    constructor
    · rintro ⟨e, hfound, haddress, rfl⟩
      obtain ⟨hmem, hname⟩ := hsymbols.lookupName?_eq_some_iff.mp hfound
      obtain ⟨hascii, hsum, hle⟩ := (bind_addressAt?_eq_some_iff hdigits).mp haddress
      exact .offset hmem hname hascii hsum hle
    · rintro (_ | _ | _ | ⟨hmem, hname, hascii, hsum, hle⟩)
      exact ⟨_, hsymbols.lookupName?_eq_some_iff.mpr ⟨hmem, hname⟩,
        (bind_addressAt?_eq_some_iff hdigits).mpr ⟨hascii, hsum, hle⟩, rfl⟩

/-- A place denotes one range at most. -/
theorem Denotes.unique (hsymbols : symbols.WellFormed) (h : place.Denotes symbols first last)
    (h' : place.Denotes symbols first' last') : first = first' ∧ last = last' := by
  have haddress {digits : List Char} {w w' : Word} (h : ReadsAsAddress digits w)
      (h' : ReadsAsAddress digits w') : w = w' :=
    UInt16.toNat_inj.mp (h.number_eq.symm.trans h'.number_eq)
  have hentry {e e' : SymbolEntry} {name : String} (hmem : e ∈ symbols.added)
      (hname : e.name = name) (hmem' : e' ∈ symbols.added) (hname' : e'.name = name) : e = e' :=
    Option.some.inj ((hsymbols.lookupName?_eq_some_iff.mpr ⟨hmem, hname⟩).symm.trans
      (hsymbols.lookupName?_eq_some_iff.mpr ⟨hmem', hname'⟩))
  rcases h with h | ⟨hfirst, hlast, -⟩ | ⟨hmem, hname⟩ | ⟨hmem, hname, -, hsum, -⟩
  · rcases h' with ⟨h'⟩
    exact ⟨haddress h h', haddress h h'⟩
  · rcases h' with _ | ⟨hfirst', hlast', -⟩
    exact ⟨haddress hfirst hfirst', haddress hlast hlast'⟩
  · rcases h' with _ | _ | ⟨hmem', hname'⟩
    obtain rfl := hentry hmem hname hmem' hname'
    exact ⟨rfl, rfl⟩
  · rcases h' with _ | _ | _ | ⟨hmem', hname', -, hsum', -⟩
    obtain rfl := hentry hmem hname hmem' hname'
    have hsame := UInt16.toNat_inj.mp (hsum.symm.trans hsum')
    exact ⟨hsame, hsame⟩

/-- A name that denotes anything is that of a symbol. -/
theorem Denotes.exists_name {offset : Option (List Char)}
    (h : (symbol name offset).Denotes symbols first last) :
    ∃ e ∈ symbols.added, e.name.toList = name := by
  rcases h with _ | _ | ⟨hmem, hname⟩ | ⟨hmem, hname⟩
  · exact ⟨_, hmem, by rw [hname, String.toList_ofList]⟩
  · exact ⟨_, hmem, by rw [hname, String.toList_ofList]⟩

/-- What a place denotes is a range of addresses in memory. -/
theorem Denotes.le (hsymbols : symbols.WellFormed) (h : place.Denotes symbols first last) :
    first ≤ last ∧ last.toNat < memorySize := by
  rcases h with ⟨h⟩ | ⟨-, hlast, hle⟩ | ⟨hmem, -⟩ | ⟨hmem, -, -, -, hle⟩
  · exact ⟨UInt16.le_refl _, h.inMemory⟩
  · exact ⟨hle, hlast.inMemory⟩
  · exact hsymbols.ranges _ hmem
  · obtain ⟨-, hlt⟩ := hsymbols.ranges _ hmem
    exact ⟨UInt16.le_refl _, Nat.lt_of_le_of_lt (UInt16.le_iff_toNat_le.mp hle) hlt⟩

end Place

end WordMachine
