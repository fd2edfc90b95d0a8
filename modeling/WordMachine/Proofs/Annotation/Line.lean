import WordMachine.Annotation.File
import WordMachine.Proofs.Symbol.Names
import WordMachine.Proofs.Text.Stretch

/-!
# What a line of an annotation file says

The format of a line is stated as a grammar (`AnnotationLine.Spells`). Digits may stand in names
too, so a place without an offset could be both an address and a name. The grammar gives such a line
to the address, and a word that consists of digits alone is the name of a symbol only in front of an
offset. With that a line says one thing at most, and reading it finds what it says
(`AnnotationLine.ofLine?_eq_some_iff`).
-/

namespace WordMachine

open Text

/-! ### The format -/

/-- How a place is **spelled**. -/
inductive Place.Spells : Place → List Char → Prop
  | address {digits : List Char} (hdigits : Stretch isDecimalDigit digits) :
    Place.Spells (.addresses digits none) digits
  | range {first last : List Char} (hfirst : Stretch isDecimalDigit first)
    (hlast : Stretch isDecimalDigit last) :
    Place.Spells (.addresses first (some last)) (first ++ '-' :: last)
  | name {name : List Char} (hname : Stretch isWordCharacter name)
    (hmixed : ¬ ∀ c ∈ name, isDecimalDigit c = true) : Place.Spells (.symbol name none) name
  | offset {name digits : List Char} (hname : Stretch isWordCharacter name)
    (hdigits : Stretch isDecimalDigit digits) :
    Place.Spells (.symbol name (some digits)) (name ++ '+' :: digits)

private theorem Place.Spells.ne_nil {place : Place} {text : List Char} (h : place.Spells text) :
    text ≠ [] := by
  obtain hdigits | _ | ⟨hname, -⟩ | _ := h
  · exact hdigits.ne_nil
  · exact List.append_ne_nil_of_right_ne_nil _ (List.cons_ne_nil _ _)
  · exact hname.ne_nil
  · exact List.append_ne_nil_of_right_ne_nil _ (List.cons_ne_nil _ _)

namespace AnnotationLine

/-- A comment with the given text, which is not blank and starts behind the blanks. -/
inductive Comment (body : List Char) : List Char → Prop
  | intro {blanks : List Char} (hblanks : ∀ c ∈ blanks, isBlank c = true) (hne : body ≠ [])
    (hbody : StopsBefore isBlank body) : Comment body ('/' :: '/' :: (blanks ++ body))

/-- Nothing, or blanks and a comment. -/
inductive Trailer : Option (List Char) → List Char → Prop
  | none : Trailer none []
  | remark {blanks body comment : List Char} (hblanks : Stretch isBlank blanks)
    (hcomment : Comment body comment) : Trailer (some body) (blanks ++ comment)

/-- What a line says **spells** the line. -/
inductive Spells : AnnotationLine → List Char → Prop
  | blank : Spells .blank []
  | comment {body line : List Char} (h : Comment body line) : Spells (.comment body) line
  | place {place : Place} {remark : Option (List Char)} {text trailer : List Char}
    (hplace : place.Spells text) (htrailer : Trailer remark trailer) :
    Spells (.place place remark) (text ++ trailer)

variable {line text body trailer first name rest : List Char} {last remark : Option (List Char)}
  {p : Char → Bool} {mark : Char} {make : List Char → Option (List Char) → Place}
  {reading reading' : AnnotationLine}

/-! ### Comments -/

private theorem Comment.stopsBefore_isBlank (h : Comment body text) : StopsBefore isBlank text := by
  cases h
  exact stopsBefore_cons (by decide) _

private theorem Comment.isEmpty_eq_false (h : Comment body text) : text.isEmpty = false := by
  cases h
  rfl

theorem commentText?_eq_some_iff : commentText? text = some body ↔ Comment body text := by
  constructor
  · intro h
    rw [commentText?] at h
    split at h
    · cases h
    · next rest hrest =>
      obtain rfl := after?_eq_some_iff.mp hrest
      obtain ⟨hsplit, hblanks, hstops⟩ := eq_takeWhile_append_dropWhile isBlank rest
      dsimp only at h
      split at h
      · cases h
      · next hne =>
        cases h
        have hcomment := Comment.intro hblanks (by simpa using hne) hstops
        rwa [← hsplit] at hcomment
  · rintro ⟨hblanks, hne, hbody⟩
    obtain ⟨-, hdrop⟩ := takeWhile_dropWhile_iff.mpr ⟨rfl, hblanks, hbody⟩
    simp [commentText?, after?, hdrop, hne]

theorem remarkAtEnd?_eq_some_iff : remarkAtEnd? text = some remark ↔ Trailer remark text := by
  constructor
  · intro h
    cases text with
    | nil =>
      cases h
      exact .none
    | cons c text =>
      rw [remarkAtEnd?] at h
      split at h
      · next hc =>
        obtain ⟨body, hbody, rfl⟩ := Option.map_eq_some_iff.mp h
        obtain ⟨hsplit, hblanks, -⟩ := eq_takeWhile_append_dropWhile isBlank text
        have htrailer := Trailer.remark ⟨List.cons_ne_nil c _, List.forall_mem_cons.mpr
          ⟨hc, hblanks⟩⟩ (commentText?_eq_some_iff.mp hbody)
        rwa [List.cons_append, ← hsplit] at htrailer
      · cases h
  · rintro (_ | ⟨hblanks, hcomment⟩)
    · rfl
    · next blanks body comment =>
      obtain ⟨c, blanks, rfl⟩ := List.exists_cons_of_ne_nil hblanks.ne_nil
      obtain ⟨hc, hall⟩ := List.forall_mem_cons.mp hblanks.all
      obtain ⟨-, hdrop⟩ := takeWhile_dropWhile_iff.mpr ⟨rfl, hall, hcomment.stopsBefore_isBlank⟩
      rw [List.cons_append, remarkAtEnd?, if_pos hc, hdrop, commentText?_eq_some_iff.mpr hcomment]
      rfl

/-- A trailer begins with a blank. -/
private theorem Trailer.stopsBefore (h : Trailer remark trailer)
    (hblank : ∀ c, isBlank c = true → p c = false) : StopsBefore p trailer := by
  cases h with
  | none => nofun
  | remark hblanks _ => exact hblanks.stopsBefore hblank _

private theorem Trailer.head?_ne (h : Trailer remark trailer) {c : Char} (hc : isBlank c = false) :
    trailer.head? ≠ some c := by
  intro hhead
  have hstops := h.stopsBefore (p := fun c => !isBlank c) (fun _ hblank => by simp [hblank]) c hhead
  simp [hc] at hstops

/-! ### Places -/

/-- Reads a place whose first part is a stretch of a class, and whose second part consists of digits
behind a mark. -/
def placeLine? (p : Char → Bool) (mark : Char) (make : List Char → Option (List Char) → Place)
    (line : List Char) : Option AnnotationLine :=
  let first := line.takeWhile p
  let rest := line.dropWhile p
  if first.isEmpty then none
  else if rest.head? = some mark then
    let last := rest.tail.takeWhile isDecimalDigit
    if last.isEmpty then none
    else (remarkAtEnd? (rest.tail.dropWhile isDecimalDigit)).map (place (make first (some last)))
  else (remarkAtEnd? rest).map (place (make first none))

private theorem addressLine?_eq :
    addressLine? line = placeLine? isDecimalDigit '-' .addresses line := by
  rw [addressLine?, placeLine?]
  cases line.dropWhile isDecimalDigit with
  | nil => rfl
  | cons c rest =>
    by_cases hc : c = '-'
    · subst hc
      rfl
    · simp [hc]

private theorem symbolLine?_eq :
    symbolLine? line = placeLine? isWordCharacter '+' .symbol line := by
  rw [symbolLine?, placeLine?]
  cases line.dropWhile isWordCharacter with
  | nil => rfl
  | cons c rest =>
    by_cases hc : c = '+'
    · subst hc
      rfl
    · simp [hc]

/-- The two parts of a place, and a trailer. -/
inductive Fields (p : Char → Bool) (mark : Char) :
    List Char → Option (List Char) → Option (List Char) → List Char → Prop
  | plain {first trailer : List Char} {remark : Option (List Char)} (hfirst : Stretch p first)
    (htrailer : Trailer remark trailer) : Fields p mark first none remark (first ++ trailer)
  | marked {first digits trailer : List Char} {remark : Option (List Char)}
    (hfirst : Stretch p first) (hdigits : Stretch isDecimalDigit digits)
    (htrailer : Trailer remark trailer) :
    Fields p mark first (some digits) remark (first ++ mark :: (digits ++ trailer))

private theorem fields_of_placeLine? (h : placeLine? p mark make line = some reading) :
    ∃ first last remark, reading = .place (make first last) remark ∧
      Fields p mark first last remark line := by
  obtain ⟨hline, -, -⟩ := eq_takeWhile_append_dropWhile p line
  simp only [placeLine?] at h
  split at h
  · cases h
  next hne =>
    have hfirst : Stretch p (line.takeWhile p) := stretch_takeWhile (by simpa using hne)
    split at h
    · next hmark =>
      obtain ⟨rest, hdrop⟩ := List.head?_eq_some_iff.mp hmark
      rw [hdrop, List.tail_cons] at h
      split at h
      · cases h
      next hne' =>
        have hdigits := stretch_takeWhile (by simpa using hne')
        obtain ⟨hrest, -, -⟩ := eq_takeWhile_append_dropWhile isDecimalDigit rest
        obtain ⟨remark, hremark, rfl⟩ := Option.map_eq_some_iff.mp h
        have hfields : Fields p mark _ _ _ _ :=
          .marked hfirst hdigits (remarkAtEnd?_eq_some_iff.mp hremark)
        rw [← hrest, ← hdrop, ← hline] at hfields
        exact ⟨_, _, remark, rfl, hfields⟩
    · obtain ⟨remark, hremark, rfl⟩ := Option.map_eq_some_iff.mp h
      have hfields : Fields p mark _ _ _ _ :=
        .plain hfirst (remarkAtEnd?_eq_some_iff.mp hremark)
      rw [← hline] at hfields
      exact ⟨_, _, remark, rfl, hfields⟩

private theorem placeLine?_of_fields (hblank : ∀ c, isBlank c = true → p c = false)
    (hmark : p mark = false) (hmark' : isBlank mark = false)
    (h : Fields p mark first last remark line) :
    placeLine? p mark make line = some (.place (make first last) remark) := by
  cases h with
  | plain hfirst htrailer =>
    obtain ⟨htake, hdrop⟩ := hfirst.takeWhile_dropWhile (htrailer.stopsBefore hblank)
    have hhead := htrailer.head?_ne hmark'
    simp [placeLine?, htake, hdrop, hfirst.ne_nil, hhead, remarkAtEnd?_eq_some_iff.mpr htrailer]
  | @marked digits trailer _ hfirst hdigits htrailer =>
    obtain ⟨htake, hdrop⟩ := hfirst.takeWhile_dropWhile
      (stopsBefore_cons hmark (digits ++ trailer))
    obtain ⟨htake', hdrop'⟩ := hdigits.takeWhile_dropWhile
      (htrailer.stopsBefore fun _ => isDecimalDigit_eq_false)
    simp [placeLine?, htake, hdrop, htake', hdrop', hfirst.ne_nil, hdigits.ne_nil,
      remarkAtEnd?_eq_some_iff.mpr htrailer]

/-- Reading a place finds its parts: each is followed by something that cannot belong to it. -/
theorem placeLine?_eq_some_iff (hblank : ∀ c, isBlank c = true → p c = false)
    (hmark : p mark = false) (hmark' : isBlank mark = false) :
    placeLine? p mark make line = some reading ↔
      ∃ first last remark, reading = .place (make first last) remark ∧
        Fields p mark first last remark line := by
  constructor
  · exact fields_of_placeLine?
  · rintro ⟨first, last, remark, rfl, hfields⟩
    exact placeLine?_of_fields hblank hmark hmark' hfields

theorem addressLine?_eq_some_iff :
    addressLine? line = some reading ↔
      ∃ first last remark, reading = .place (.addresses first last) remark ∧
        Fields isDecimalDigit '-' first last remark line := by
  rw [addressLine?_eq]
  exact placeLine?_eq_some_iff (fun _ => isDecimalDigit_eq_false) (by decide) (by decide)

theorem symbolLine?_eq_some_iff :
    symbolLine? line = some reading ↔
      ∃ name offset remark, reading = .place (.symbol name offset) remark ∧
        Fields isWordCharacter '+' name offset remark line := by
  rw [symbolLine?_eq]
  exact placeLine?_eq_some_iff (fun _ => isWordCharacter_eq_false) (by decide +kernel) (by decide)

/-! ### Addresses and names -/

private theorem spells_addresses_iff :
    Spells (.place (.addresses first last) remark) line ↔
      Fields isDecimalDigit '-' first last remark line := by
  constructor
  · rintro (_ | _ | @⟨_, _, text, trailer, hplace, htrailer⟩)
    cases hplace with
    | address hdigits => exact .plain hdigits htrailer
    | range hfirst hlast =>
      rw [List.append_assoc, List.cons_append]
      exact .marked hfirst hlast htrailer
  · rintro (⟨hfirst, htrailer⟩ | ⟨hfirst, hdigits, htrailer⟩)
    · exact .place (.address hfirst) htrailer
    · rw [← List.cons_append, ← List.append_assoc]
      exact .place (.range hfirst hdigits) htrailer

private theorem spells_symbol_iff {offset : Option (List Char)} :
    Spells (.place (.symbol name offset) remark) line ↔
      Fields isWordCharacter '+' name offset remark line ∧
        (offset = none → ¬ ∀ c ∈ name, isDecimalDigit c = true) := by
  constructor
  · rintro (_ | _ | @⟨_, _, text, trailer, hplace, htrailer⟩)
    cases hplace with
    | name hname hmixed => exact ⟨.plain hname htrailer, fun _ => hmixed⟩
    | offset hname hdigits =>
      rw [List.append_assoc, List.cons_append]
      exact ⟨.marked hname hdigits htrailer, nofun⟩
  · rintro ⟨⟨hname, htrailer⟩ | ⟨hname, hdigits, htrailer⟩, hmixed⟩
    · exact .place (.name hname (hmixed rfl)) htrailer
    · rw [← List.cons_append, ← List.append_assoc]
      exact .place (.offset hname hdigits) htrailer

/-- Behind the digits of an address, no name goes on. -/
private theorem Fields.stopsBefore_isNameCharacter
    (h : Fields isDecimalDigit '-' first last remark line) :
    StopsBefore isNameCharacter (line.dropWhile isDecimalDigit) := by
  cases h with
  | plain hfirst htrailer =>
    obtain ⟨-, hdrop⟩ := hfirst.takeWhile_dropWhile
      (htrailer.stopsBefore fun _ => isDecimalDigit_eq_false)
    rw [hdrop]
    exact htrailer.stopsBefore fun _ => isNameCharacter_eq_false_of_isBlank
  | @marked digits trailer _ hfirst hdigits htrailer =>
    obtain ⟨-, hdrop⟩ := hfirst.takeWhile_dropWhile
      (stopsBefore_cons (by decide : isDecimalDigit '-' = false) (digits ++ trailer))
    rw [hdrop]
    exact stopsBefore_cons (by decide +kernel) (digits ++ trailer)

/-- Behind the digits at its start, the name of a symbol goes on: with a character that is no digit,
or else with the offset. -/
private theorem not_stopsBefore_isNameCharacter {offset : Option (List Char)}
    (h : Spells (.place (.symbol name offset) remark) line) :
    ¬ StopsBefore isNameCharacter (line.dropWhile isDecimalDigit) := by
  obtain ⟨hfields, hmixed⟩ := spells_symbol_iff.mp h
  intro hstops
  by_cases hall : ∀ c ∈ name, isDecimalDigit c = true
  · cases hfields with
    | plain hname htrailer => exact hmixed rfl hall
    | @marked digits trailer _ hname hdigits htrailer =>
      have hplus : isDecimalDigit '+' = false := by decide
      obtain ⟨-, hdrop⟩ := takeWhile_dropWhile_iff.mpr
        ⟨rfl, hall, stopsBefore_cons hplus (digits ++ trailer)⟩
      rw [hdrop] at hstops
      exact absurd (hstops '+' rfl) (by decide +kernel)
  · obtain ⟨rest, rfl, hname⟩ : ∃ rest, line = name ++ rest ∧ Stretch isWordCharacter name := by
      cases hfields with
      | plain hname _ => exact ⟨_, rfl, hname⟩
      | marked hname _ _ => exact ⟨_, rfl, hname⟩
    obtain ⟨c, letters, hletters⟩ : ∃ c letters, name.dropWhile isDecimalDigit = c :: letters := by
      refine List.exists_cons_of_ne_nil fun hnil => hall ?_
      exact List.dropWhile_eq_nil_iff.mp hnil
    have hmem : c ∈ name := (List.dropWhile_sublist _).mem (hletters ▸ List.mem_cons_self)
    have hdrop : (name ++ rest).dropWhile isDecimalDigit = c :: (letters ++ rest) := by
      rw [List.dropWhile_append, hletters]
      rfl
    rw [hdrop] at hstops
    have hc := hstops c rfl
    rw [isNameCharacter, hname.all c hmem, Bool.true_or] at hc
    cases hc

/-! ### Reading lines -/

/-- A place does not begin like a comment. -/
private theorem commentText?_of_place {place : Place} (h : Spells (.place place remark) line) :
    commentText? line = none := by
  refine Option.eq_none_iff_forall_ne_some.mpr fun body hbody => ?_
  have hstart : line.head? = some '/' := by
    cases commentText?_eq_some_iff.mp hbody
    rfl
  obtain ⟨p, hslash, hhead⟩ : ∃ p : Char → Bool, p '/' = false ∧ line.head?.any p = true := by
    obtain _ | _ | ⟨hplace, -⟩ := h
    obtain hdigits | ⟨hfirst, -⟩ | ⟨hname, -⟩ | ⟨hname, -⟩ := hplace
    · exact ⟨isDecimalDigit, by decide, hdigits.head?_append _⟩
    · refine ⟨isDecimalDigit, by decide, ?_⟩
      rw [List.append_assoc]
      exact hfirst.head?_append _
    · exact ⟨isWordCharacter, by decide +kernel, hname.head?_append _⟩
    · refine ⟨isWordCharacter, by decide +kernel, ?_⟩
      rw [List.append_assoc]
      exact hname.head?_append _
  rw [hstart, Option.any_some, hslash] at hhead
  cases hhead

/-- **Reading a line is exact.** What is found, with an address tried before a name and each part as
long as it can be, is what spells the line, if there is anything. -/
theorem ofLine?_eq_some_iff : ofLine? line = some reading ↔ reading.Spells line := by
  constructor
  · intro h
    rw [ofLine?] at h
    split at h
    · next hempty =>
      cases h
      rw [List.isEmpty_iff.mp hempty]
      exact .blank
    split at h
    · next hcomment =>
      cases h
      exact .comment (commentText?_eq_some_iff.mp hcomment)
    split at h
    · next haddress =>
      cases h
      obtain ⟨first, last, remark, rfl, hfields⟩ := addressLine?_eq_some_iff.mp haddress
      exact spells_addresses_iff.mpr hfields
    · next haddress =>
      obtain ⟨name, offset, remark, rfl, hfields⟩ := symbolLine?_eq_some_iff.mp h
      refine spells_symbol_iff.mpr ⟨hfields, ?_⟩
      -- Digits alone would have been an address.
      rintro rfl hall
      obtain ⟨hname, htrailer⟩ := hfields
      have hfields : Fields isDecimalDigit '-' name none remark _ :=
        .plain ⟨hname.ne_nil, hall⟩ htrailer
      have hsome := addressLine?_eq_some_iff.mpr ⟨name, none, remark, rfl, hfields⟩
      rw [haddress] at hsome
      cases hsome
  · intro h
    cases reading with
    | blank =>
      cases h
      rfl
    | comment body =>
      cases h with
      | comment hcomment =>
        have hne := hcomment.isEmpty_eq_false
        rw [ofLine?, hne, commentText?_eq_some_iff.mpr hcomment]
        rfl
    | place place remark =>
      have hne : line.isEmpty = false := by
        cases h with
        | place hplace _ => simp [hplace.ne_nil]
      rw [ofLine?, hne, commentText?_of_place h]
      cases place with
      | addresses first last =>
        have haddress := addressLine?_eq_some_iff.mpr
          ⟨first, last, remark, rfl, spells_addresses_iff.mp h⟩
        rw [haddress]
        rfl
      | symbol name offset =>
        have haddress : addressLine? line = none := by
          refine Option.eq_none_iff_forall_ne_some.mpr fun found hfound => ?_
          obtain ⟨first, last, remark, -, hfields⟩ := addressLine?_eq_some_iff.mp hfound
          exact not_stopsBefore_isNameCharacter h hfields.stopsBefore_isNameCharacter
        have hsymbol := symbolLine?_eq_some_iff.mpr
          ⟨name, offset, remark, rfl, (spells_symbol_iff.mp h).1⟩
        rw [haddress]
        exact hsymbol

/-- A line says one thing at most. -/
theorem Spells.unique (h : reading.Spells line) (h' : reading'.Spells line) : reading = reading' :=
  Option.some.inj ((ofLine?_eq_some_iff.mpr h).symm.trans (ofLine?_eq_some_iff.mpr h'))

end AnnotationLine

end WordMachine
