import WordMachine.Proofs.Annotation.Place

/-!
# Annotation files are read exactly

What a text says is stated line by line (`Annotations.Says`), with no annotations that are still
open. Each place begins a **section**, to which the comments up to the next place belong. A file is
accepted exactly if no comment precedes the first section and the places of the sections denote
ranges with different first addresses; its annotations are then those of the sections, one for each
(`Annotations.ofText_eq_ok_iff`).
-/

namespace WordMachine

open Text

namespace AnnotationLine

/-- The place on a line. -/
def place? : AnnotationLine → Option Place
  | .place found _ => some found
  | _ => none

/-- The text of a comment line. -/
def comment? : AnnotationLine → Option String
  | .comment body => some (String.ofList body)
  | _ => none

end AnnotationLine

namespace Annotations

/-- The lines of a text have the format of annotation files, and **say** what `file` lists. -/
def Says (text : List Char) (file : List AnnotationLine) : Prop :=
  List.Forall₂ (fun line reading => AnnotationLine.Spells reading (trim line)) (lines text) file

/-- The texts of the comments before the next place. -/
def commentsBelow (below : List AnnotationLine) : List String :=
  (below.takeWhile fun reading => reading.place?.isNone).filterMap AnnotationLine.comment?

/-- The next line that is not blank is a comment. -/
def CommentFollows (below : List AnnotationLine) : Prop :=
  ∃ body, below.find? (· ≠ .blank) = some (.comment body)

/-- What makes an annotation: a place with its remark, and the comments below it. -/
structure Section where
  place : Place
  remark : Option (List Char)
  comments : List String

/-- The sections of a file. -/
def sections : List AnnotationLine → List Section
  | [] => []
  | .place place remark :: below => ⟨place, remark, commentsBelow below⟩ :: sections below
  | _ :: below => sections below

/-- The section **makes** the annotation. -/
structure Section.Makes (symbols : SymbolTable) (found : Section) (note : Annotation) : Prop where
  denotes : found.place.Denotes symbols note.first note.last
  remark_eq : note.remark = found.remark.map String.ofList
  lines_eq : note.lines = found.comments

/-- The annotations with more comments in the latest, which is the first of `found`. -/
def withComments : List Annotation → List String → List Annotation
  | [], _ => []
  | latest :: earlier, texts => { latest with lines := latest.lines ++ texts } :: earlier

/-- What a line does to the annotations `found` so far: nothing, or it goes to the latest of them,
or it starts one where no other starts. -/
inductive Takes (symbols : SymbolTable) :
    List Annotation → AnnotationLine → List Annotation → Prop
  | blank (found : List Annotation) : Takes symbols found .blank found
  | comment {found : List Annotation} (hne : found ≠ []) (body : List Char) :
    Takes symbols found (.comment body) (withComments found [String.ofList body])
  | place {found : List Annotation} {place : Place} {first last : Word}
    (hplace : place.Denotes symbols first last) (hnew : first ∉ found.map Annotation.first)
    (remark : Option (List Char)) :
    Takes symbols found (.place place remark)
      (⟨first, last, remark.map String.ofList, []⟩ :: found)

variable {symbols : SymbolTable} {found next result notes : List Annotation} {line text : List Char}
  {file file' below : List AnnotationLine} {reading : AnnotationLine} {place : Place}
  {remark : Option (List Char)} {body : List Char} {texts texts' : List String}
  {first last : Word}

/-! ### Comments -/

@[simp] theorem withComments_cons (latest : Annotation) (earlier : List Annotation) :
    withComments (latest :: earlier) texts =
      { latest with lines := latest.lines ++ texts } :: earlier := rfl

@[simp] theorem withComments_nil (found : List Annotation) : withComments found [] = found := by
  cases found <;> simp [withComments]

@[simp] theorem withComments_withComments :
    withComments (withComments found texts) texts' = withComments found (texts ++ texts') := by
  cases found <;> simp [withComments]

@[simp] theorem withComments_eq_nil_iff : withComments found texts = [] ↔ found = [] := by
  cases found <;> simp [withComments]

/-- Comments leave the first addresses as they are. -/
@[simp] theorem map_first_withComments :
    (withComments found texts).map Annotation.first = found.map Annotation.first := by
  cases found <;> rfl

@[simp] theorem commentsBelow_nil : commentsBelow [] = [] := rfl

@[simp] theorem commentsBelow_blank : commentsBelow (.blank :: below) = commentsBelow below := rfl

@[simp] theorem commentsBelow_comment :
    commentsBelow (.comment body :: below) = String.ofList body :: commentsBelow below := rfl

@[simp] theorem commentsBelow_place : commentsBelow (.place place remark :: below) = [] := rfl

/-- There are comments for a place if one follows it directly, blank lines aside. -/
theorem commentsBelow_ne_nil_iff : commentsBelow below ≠ [] ↔ CommentFollows below := by
  induction below with
  | nil => simp [CommentFollows]
  | cons reading below ih =>
    cases reading with
    | blank => simpa [CommentFollows] using ih
    | comment body => simp [CommentFollows]
    | place place remark => simp [CommentFollows]

/-! ### Lines -/

private theorem takes_blank_iff : Takes symbols found .blank next ↔ next = found := by
  constructor
  · rintro ⟨⟩
    rfl
  · rintro rfl
    exact .blank next

private theorem takes_comment_iff :
    Takes symbols found (.comment body) next ↔
      found ≠ [] ∧ next = withComments found [String.ofList body] := by
  constructor
  · rintro (_ | hne)
    exact ⟨hne, rfl⟩
  · rintro ⟨hne, rfl⟩
    exact .comment hne body

private theorem takes_place_iff :
    Takes symbols found (.place place remark) next ↔
      ∃ first last, place.Denotes symbols first last ∧ first ∉ found.map Annotation.first ∧
        next = ⟨first, last, remark.map String.ofList, []⟩ :: found := by
  constructor
  · rintro (_ | _ | ⟨hplace, hnew⟩)
    exact ⟨_, _, hplace, hnew, rfl⟩
  · rintro ⟨first, last, hplace, hnew, rfl⟩
    exact .place hplace hnew remark

private theorem any_first_iff :
    found.any (·.first = first) = true ↔ first ∈ found.map Annotation.first := by simp

/-- A line is accepted if it says something that can be taken, and that is what happens. -/
theorem addLine_eq_ok_iff (hsymbols : symbols.WellFormed) :
    addLine symbols found line = .ok next ↔
      ∃ reading, AnnotationLine.Spells reading line ∧ Takes symbols found reading next := by
  cases hread : AnnotationLine.ofLine? line with
  | none =>
    rw [addLine, hread]
    constructor
    · rintro ⟨⟩
    · rintro ⟨reading, hspells, -⟩
      rw [AnnotationLine.ofLine?_eq_some_iff.mpr hspells] at hread
      cases hread
  | some reading =>
    have hspells := AnnotationLine.ofLine?_eq_some_iff.mp hread
    have honly : (∃ reading, AnnotationLine.Spells reading line ∧ Takes symbols found reading next)
        ↔ Takes symbols found reading next := by
      constructor
      · rintro ⟨reading', hspells', htakes⟩
        rwa [hspells.unique hspells']
      · exact fun htakes => ⟨reading, hspells, htakes⟩
    rw [honly, addLine, hread]
    cases reading with
    | blank => grind [takes_blank_iff]
    | comment body =>
      rw [takes_comment_iff]
      cases found with
      | nil => simp
      | cons latest earlier => simp [withComments, eq_comm]
    | place place remark =>
      -- Places are resolved exactly if they are spelled somewhere.
      obtain ⟨text, hplace⟩ : ∃ text, place.Spells text := by
        obtain _ | _ | ⟨hplace, -⟩ := hspells
        exact ⟨_, hplace⟩
      rw [takes_place_iff]
      simp only [← Place.resolve_eq_ok_iff hsymbols hplace]
      cases place.resolve symbols with
      | error e => simp
      | ok range =>
        obtain ⟨first, last⟩ := range
        simp only [any_first_iff]
        split
        · next hold =>
          constructor
          · nofun
          · rintro ⟨_, _, ⟨⟩, hnew, -⟩
            exact absurd hold hnew
        · next hnew =>
          constructor
          · rintro ⟨⟩
            exact ⟨_, _, rfl, hnew, rfl⟩
          · rintro ⟨_, _, ⟨⟩, -, rfl⟩
            rfl

/-! ### Sections -/

/-- Taking lines one after another completes the latest annotation with the comments before the
first place, and makes one annotation of each section behind. -/
private theorem steps_takes_iff :
    Steps (Takes symbols) found file result ↔
      (found = [] → commentsBelow file = []) ∧
        ∃ notes, List.Forall₂ (Section.Makes symbols) (sections file) notes ∧
          (notes.map Annotation.first).Nodup ∧
          (found.map Annotation.first).Disjoint (notes.map Annotation.first) ∧
          result = notes.reverse ++ withComments found (commentsBelow file) := by
  -- The latest of `found` is not complete yet: it takes the comments at the head of the file. So
  -- the induction on the file is for any `found`, and each line says what is left for the rest.
  induction file generalizing found with
  | nil =>
    constructor
    · rintro ⟨⟩
      exact ⟨fun _ => rfl, [], .nil, .nil, List.disjoint_nil_right _, by simp⟩
    · rintro ⟨-, _, ⟨⟩, -, -, rfl⟩
      rw [List.reverse_nil, List.nil_append, commentsBelow_nil, withComments_nil]
      exact .nil found
  | cons reading file ih =>
    rw [steps_cons_iff]
    cases reading with
    | blank => simp only [takes_blank_iff, exists_eq_left, ih, commentsBelow_blank, sections]
    | comment body =>
      -- With nothing found there is no annotation that the comment could go to.
      simp only [takes_comment_iff, and_assoc, exists_and_left, exists_eq_left, ih,
        withComments_eq_nil_iff, map_first_withComments, withComments_withComments,
        commentsBelow_comment, sections]
      constructor
      · rintro ⟨hne, -, hnotes⟩
        exact ⟨fun hnil => absurd hnil hne, hnotes⟩
      · rintro ⟨hne, hnotes⟩
        have hne : found ≠ [] := fun hnil => List.cons_ne_nil _ _ (hne hnil)
        exact ⟨hne, fun hnil => absurd hnil hne, hnotes⟩
    | place place remark =>
      -- The comments of the latest annotation end here, and those of the new one follow.
      simp only [takes_place_iff, ih, sections]
      constructor
      · rintro ⟨_, ⟨first, last, hplace, hnew, rfl⟩, -, notes, hmakes, hnodup, hapart, rfl⟩
        obtain ⟨hfirst, hapart⟩ := List.disjoint_cons_left.mp hapart
        exact ⟨fun _ => rfl, ⟨first, last, remark.map String.ofList, commentsBelow file⟩ :: notes,
          .cons ⟨hplace, rfl, rfl⟩ hmakes, List.nodup_cons.mpr ⟨hfirst, hnodup⟩,
          List.disjoint_cons_right.mpr ⟨hnew, hapart⟩, by simp⟩
      · rintro ⟨-, _, hmakes, hnodup, hapart, rfl⟩
        obtain ⟨⟨first, last, remark', lines⟩, notes, ⟨hplace, rfl, rfl⟩, hmakes', rfl⟩ :=
          List.forall₂_cons_left_iff.mp hmakes
        obtain ⟨hfirst, hnodup⟩ := List.nodup_cons.mp hnodup
        obtain ⟨hnew, hapart⟩ := List.disjoint_cons_right.mp hapart
        exact ⟨_, ⟨first, last, hplace, hnew, rfl⟩, nofun, notes, hmakes', hnodup,
          List.disjoint_cons_left.mpr ⟨hfirst, hapart⟩, by simp⟩

/-- The annotations of a file are those that its sections make, in the same order. -/
theorem ofText_eq_ok_iff (hsymbols : symbols.WellFormed) {notes : Annotations} :
    ofText symbols text = .ok notes ↔
      ∃ file, Says text file ∧ commentsBelow file = [] ∧
        List.Forall₂ (Section.Makes symbols) (sections file) notes.entries ∧
          (notes.entries.map Annotation.first).Nodup := by
  have hadd (found : List Annotation) (line : List Char) (next : List Annotation) :
      addLine symbols found line = .ok next ↔
        ∃ reading, AnnotationLine.Spells reading line ∧ Takes symbols found reading next :=
    addLine_eq_ok_iff hsymbols
  have hread (found : List Annotation) :
      readLines (addLine symbols) [] text = .ok found ↔
        ∃ file, Says text file ∧ Steps (Takes symbols) [] file found :=
    readLinesFrom_eq_ok_iff hadd
  constructor
  · intro h
    rw [ofText] at h
    cases hfound : readLines (addLine symbols) [] text with
    | error e =>
      rw [hfound] at h
      cases h
    | ok found =>
      rw [hfound] at h
      cases h
      obtain ⟨file, hsays, hsteps⟩ := (hread found).mp hfound
      obtain ⟨hempty, notes, hmakes, hnodup, -, rfl⟩ := steps_takes_iff.mp hsteps
      refine ⟨file, hsays, hempty rfl, ?_⟩
      simp only [withComments, List.append_nil, List.reverse_reverse]
      exact ⟨hmakes, hnodup⟩
  · rintro ⟨file, hsays, hempty, hmakes, hnodup⟩
    have hsteps : Steps (Takes symbols) [] file (notes.entries.reverse ++ []) :=
      steps_takes_iff.mpr
        ⟨fun _ => hempty, notes.entries, hmakes, hnodup, List.disjoint_nil_left _, rfl⟩
    rw [ofText, (hread _).mpr ⟨file, hsays, hsteps⟩, List.append_nil, Except.map,
      List.reverse_reverse]

theorem says_unique (h : Says text file) (h' : Says text file') : file = file' := by
  have hunique : Relator.RightUnique fun line reading =>
      AnnotationLine.Spells reading (trim line) := fun _ _ _ => AnnotationLine.Spells.unique
  exact List.right_unique_forall₂' hunique h h'

/-! ### Acceptance -/

/-- A file from which annotations can be made. -/
structure Admissible (symbols : SymbolTable) (file : List AnnotationLine) : Prop where
  /-- No comment precedes the first place. -/
  anchored : ∀ before body after, file = before ++ .comment body :: after →
    ∃ reading ∈ before, reading.place?.isSome = true
  /-- Every place denotes a range. -/
  resolved : ∀ place ∈ file.filterMap AnnotationLine.place?,
    ∃ first last, place.Denotes symbols first last
  /-- No two places denote ranges with the same first address. -/
  starts : (file.filterMap AnnotationLine.place?).Pairwise fun place place' =>
    ∀ first last first' last', place.Denotes symbols first last →
      place'.Denotes symbols first' last' → first ≠ first'

theorem map_place_sections (file : List AnnotationLine) :
    (sections file).map Section.place = file.filterMap AnnotationLine.place? := by
  induction file with
  | nil => rfl
  | cons reading file ih =>
    cases reading <;> simp [sections, List.filterMap_cons, AnnotationLine.place?, ih]

/-- Comments outside of all sections come before the first place. -/
private theorem commentsBelow_eq_nil_iff :
    commentsBelow file = [] ↔
      ∀ before body after, file = before ++ .comment body :: after →
        ∃ reading ∈ before, reading.place?.isSome = true := by
  constructor
  · rintro hempty before body after rfl
    by_contra hnone
    have hall : ∀ reading ∈ before, reading.place?.isNone = true := by
      intro reading hmem
      by_contra hplace
      exact hnone ⟨reading, hmem, by simpa [Option.isSome_iff_ne_none] using hplace⟩
    rw [commentsBelow, List.takeWhile_append_of_pos hall, List.takeWhile_cons_of_pos rfl,
      List.filterMap_append, List.append_eq_nil_iff] at hempty
    exact List.cons_ne_nil _ _ hempty.2
  · intro h
    refine List.filterMap_eq_nil_iff.mpr fun reading hmem => ?_
    rcases hreading : reading with _ | body | ⟨place, remark⟩
    · rfl
    -- A place before the comment would have ended what is taken.
    · obtain ⟨before, after, hsplit⟩ := List.append_of_mem hmem
      have hfile : file = before ++ .comment body ::
          (after ++ file.dropWhile fun reading => reading.place?.isNone) := by
        have hall := file.takeWhile_append_dropWhile (p := fun reading => reading.place?.isNone)
        rw [hsplit, hreading, List.append_assoc] at hall
        exact hall.symm
      obtain ⟨earlier, hearlier, hplace⟩ := h _ _ _ hfile
      have hmem' : earlier ∈ file.takeWhile fun reading => reading.place?.isNone :=
        hsplit ▸ List.mem_append_left _ hearlier
      have hnone := List.mem_takeWhile_imp hmem'
      rw [Option.isNone_iff_eq_none.mp hnone] at hplace
      cases hplace
    · rfl

/-- Sections make annotations with different first addresses if their places denote ranges with
different first addresses. -/
private theorem exists_makes_iff (hsymbols : symbols.WellFormed) {founds : List Section} :
    (∃ notes, List.Forall₂ (Section.Makes symbols) founds notes ∧
        (notes.map Annotation.first).Nodup) ↔
      (∀ place ∈ founds.map Section.place, ∃ first last, place.Denotes symbols first last) ∧
        (founds.map Section.place).Pairwise fun place place' =>
          ∀ first last first' last', place.Denotes symbols first last →
            place'.Denotes symbols first' last' → first ≠ first' := by
  induction founds with
  | nil => simp
  | cons found founds ih =>
    rw [List.map_cons, List.forall_mem_cons, List.pairwise_cons]
    constructor
    · rintro ⟨_, hmakes, hnodup⟩
      obtain ⟨note, notes, hmade, hmakes', rfl⟩ := List.forall₂_cons_left_iff.mp hmakes
      obtain ⟨hnew, hnodup⟩ := List.nodup_cons.mp hnodup
      obtain ⟨hresolved, hstarts⟩ := ih.mp ⟨notes, hmakes', hnodup⟩
      refine ⟨⟨⟨_, _, hmade.denotes⟩, hresolved⟩, ?_, hstarts⟩
      rintro _ hmem first last first' last' hplace hplace' rfl
      obtain ⟨found', hfound', rfl⟩ := List.mem_map.mp hmem
      obtain ⟨note', hmem', hmade'⟩ := exists_reading_of_mem hmakes' hfound'
      have hfirst := (hplace.unique hsymbols hmade.denotes).1
      have hfirst' := (hplace'.unique hsymbols hmade'.denotes).1
      exact hnew (List.mem_map.mpr ⟨note', hmem', hfirst'.symm.trans hfirst⟩)
    · rintro ⟨⟨⟨first, last, hplace⟩, hresolved⟩, hapart, hstarts⟩
      obtain ⟨notes, hmakes, hnodup⟩ := ih.mpr ⟨hresolved, hstarts⟩
      refine ⟨⟨first, last, found.remark.map String.ofList, found.comments⟩ :: notes,
        .cons ⟨hplace, rfl, rfl⟩ hmakes, List.nodup_cons.mpr ⟨fun hmem => ?_, hnodup⟩⟩
      obtain ⟨note, hmem, hfirst⟩ := List.mem_map.mp hmem
      obtain ⟨found', hmem', hmade⟩ := exists_line_of_mem hmakes hmem
      exact hapart _ (List.mem_map_of_mem hmem') _ _ _ _ hplace hmade.denotes hfirst.symm

/-- **Annotation files are accepted exactly if they have the format.** That is so if every line says
something, no comment precedes the first place, every place denotes a range, and the ranges have
different first addresses, in whatever way they are spelled. What a text says is unique. -/
theorem ofText_accepts_iff (attempts : List SymbolEntry) (text : List Char) :
    let symbols := SymbolTable.ofAttempts attempts
    ((∃ notes, ofText symbols text = .ok notes) ↔
        ∃ file, Says text file ∧ Admissible symbols file) ∧
      ∀ file file', Says text file → Says text file' → file = file' := by
  intro symbols
  have hsymbols : symbols.WellFormed := SymbolTable.wellFormed_ofAttempts attempts
  refine ⟨?_, fun file file' => says_unique⟩
  constructor
  · rintro ⟨notes, h⟩
    obtain ⟨file, hsays, hempty, hmade⟩ := (ofText_eq_ok_iff hsymbols).mp h
    obtain ⟨hresolved, hstarts⟩ := (exists_makes_iff hsymbols).mp ⟨_, hmade⟩
    rw [map_place_sections] at hresolved hstarts
    exact ⟨file, hsays, commentsBelow_eq_nil_iff.mp hempty, hresolved, hstarts⟩
  · rintro ⟨file, hsays, hanchored, hresolved, hstarts⟩
    rw [← map_place_sections] at hresolved hstarts
    obtain ⟨notes, hmade⟩ := (exists_makes_iff hsymbols).mpr ⟨hresolved, hstarts⟩
    exact ⟨⟨notes⟩, (ofText_eq_ok_iff hsymbols).mpr
      ⟨file, hsays, commentsBelow_eq_nil_iff.mpr hanchored, hmade⟩⟩

end Annotations

end WordMachine
