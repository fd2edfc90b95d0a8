import Mathlib.Data.List.Forall2
import Mathlib.Data.List.TakeWhile
import WordMachine.Proofs.Text.Pieces
import WordMachine.Text.Line

/-!
# Lines put together and read

Lines that hold no line feed are found again in the text that consists of them
(`lines_flatMap_append`), and every line of a text stands behind the lines before it
(`exists_split_of_lines_eq`). If a reader accepts a line exactly when the line has a reading with
which it can go one step, it accepts lines exactly when they have readings with which it can go step
by step (`readLinesFrom_eq_ok_iff`). It fails at the first line that it refuses
(`readLinesFrom_eq_error_iff`).
-/

namespace WordMachine.Text

variable {line text rest : List Char} {texts : List (List Char)}

/-! ### Whole lines -/

theorem lines_append_feed (h : '\n' ∉ line) (rest : List Char) :
    lines (line ++ '\n' :: rest) = line :: lines rest := by
  have hlast : (line :: pieces '\n' rest).getLast? = (pieces '\n' rest).getLast? :=
    List.getLast?_cons_of_ne_nil (pieces_ne_nil _ _)
  rw [lines, lines, pieces_append h, hlast, List.dropLast_cons_of_ne_nil (pieces_ne_nil _ _)]
  split <;> rfl

theorem lines_of_notMem (h : '\n' ∉ line) (hne : line ≠ []) : lines line = [line] := by
  rw [lines, pieces_of_notMem h]
  exact if_neg fun hlast => hne (Option.some_inj.mp hlast)

/-- Lines that hold no line feed are found again, whatever comes behind them. -/
theorem lines_flatMap_append (h : ∀ line ∈ texts, '\n' ∉ line) (rest : List Char) :
    lines (texts.flatMap (· ++ ['\n']) ++ rest) = texts ++ lines rest := by
  induction texts with
  | nil => rfl
  | cons line texts ih =>
    obtain ⟨hline, htexts⟩ := List.forall_mem_cons.mp h
    rw [List.flatMap_cons, List.append_assoc, List.append_assoc, List.singleton_append,
      lines_append_feed hline, ih htexts, List.cons_append]

/-- Lines that hold no line feed are found again. -/
theorem lines_flatMap_feed (h : ∀ line ∈ texts, '\n' ∉ line) :
    lines (texts.flatMap (· ++ ['\n'])) = texts := by
  simpa using lines_flatMap_append h []

/-- The text of lines one after another is the text of each with a line feed behind it. -/
theorem toList_join_feed (texts : List String) :
    (String.join (texts.map (· ++ "\n"))).toList =
      (texts.map String.toList).flatMap (· ++ ['\n']) := by
  rw [String.toList_join, List.flatMap_map, List.flatMap_map]
  exact List.flatMap_congr fun line _ => String.toList_append

/-! ### Lines of a text -/

/-- Induction on the lines of a text. The last one may lack its line feed. -/
private theorem lines_induction {motive : List Char → Prop} (nil : motive [])
    (last : ∀ line, '\n' ∉ line → line ≠ [] → motive line)
    (cons : ∀ line rest, '\n' ∉ line → motive rest → motive (line ++ '\n' :: rest))
    (text : List Char) : motive text := by
  induction hlength : text.length using Nat.strongRecOn generalizing text with
  | ind n ih =>
    subst hlength
    have hnotMem : '\n' ∉ text.takeWhile (· ≠ '\n') := fun hmem => by
      simpa using List.mem_takeWhile_imp hmem
    have hsplit := text.takeWhile_append_dropWhile (p := fun c => decide (c ≠ '\n'))
    cases hrest : text.dropWhile (· ≠ '\n') with
    | nil =>
      rw [hrest, List.append_nil] at hsplit
      rw [hsplit] at hnotMem
      cases text with
      | nil => exact nil
      | cons c text => exact last _ hnotMem (List.cons_ne_nil _ _)
    | cons c rest =>
      -- What follows the first line starts with its line feed and is shorter than the text.
      have hc : c = '\n' := by
        have hhead := List.head?_dropWhile_not (fun c => decide (c ≠ '\n')) text
        rw [hrest] at hhead
        simpa using hhead
      subst hc
      rw [hrest] at hsplit
      have hlt : rest.length < text.length := by
        rw [← hsplit, List.length_append, List.length_cons]
        omega
      rw [← hsplit]
      exact cons _ _ hnotMem (ih _ hlt rest rfl)

theorem feed_notMem_of_mem_lines (h : line ∈ lines text) : '\n' ∉ line := by
  induction text using lines_induction with
  | nil => cases h
  | last text hfeed hne =>
    rw [lines_of_notMem hfeed hne, List.mem_singleton] at h
    rwa [h]
  | cons first rest hfeed ih =>
    rw [lines_append_feed hfeed] at h
    obtain rfl | h := List.mem_cons.mp h
    · exact hfeed
    · exact ih h

/-- A line of a text stands behind the lines before it, and its line feed or nothing at all comes
behind it. -/
theorem exists_split_of_lines_eq {before after : List (List Char)}
    (h : lines text = before ++ line :: after) :
    ∃ rest, text = before.flatMap (· ++ ['\n']) ++ (line ++ rest) ∧
      (rest = [] ∨ rest.head? = some '\n') := by
  induction text using lines_induction generalizing before with
  | nil => simp at h
  | last text hfeed hne =>
    rw [lines_of_notMem hfeed hne, eq_comm, List.append_eq_singleton_iff] at h
    obtain ⟨rfl, hline⟩ | ⟨-, ⟨⟩⟩ := h
    cases hline
    exact ⟨[], (List.append_nil _).symm, .inl rfl⟩
  | cons first rest hfeed ih =>
    rw [lines_append_feed hfeed] at h
    cases before with
    | nil =>
      cases h
      exact ⟨'\n' :: rest, rfl, .inr rfl⟩
    | cons _ before =>
      rw [List.cons_append, List.cons.injEq] at h
      obtain ⟨rfl, h⟩ := h
      obtain ⟨behind, hrest, hends⟩ := ih h
      refine ⟨behind, ?_, hends⟩
      rw [List.flatMap_cons, List.append_assoc, List.append_assoc, ← hrest]
      rfl

/-! ### Readers -/

/-- Every line has a reading if lines and readings belong together one by one. -/
theorem exists_reading_of_mem {α β : Type} {R : α → β → Prop} {texts : List α} {readings : List β}
    (h : List.Forall₂ R texts readings) {text : α} (hmem : text ∈ texts) :
    ∃ reading ∈ readings, R text reading := by
  induction h with
  | nil => cases hmem
  | @cons _ reading _ _ hR _ ih =>
    obtain rfl | hmem := List.mem_cons.mp hmem
    · exact ⟨reading, .head _, hR⟩
    · obtain ⟨reading', hmem', hR'⟩ := ih hmem
      exact ⟨reading', .tail _ hmem', hR'⟩

/-- Every reading is that of a line. -/
theorem exists_line_of_mem {α β : Type} {R : α → β → Prop} {texts : List α} {readings : List β}
    (h : List.Forall₂ R texts readings) {reading : β} (hmem : reading ∈ readings) :
    ∃ text ∈ texts, R text reading := exists_reading_of_mem (R := flip R) h.flip hmem

/-- A line is read, and then the rest. -/
theorem readLinesFrom_cons_eq_ok_iff {σ ε : Type} {read : σ → List Char → Except ε σ}
    {number : Nat} {state last : σ} {rest : List (List Char)} :
    readLinesFrom read number state (line :: rest) = .ok last ↔
      ∃ next, read state (trim line) = .ok next ∧
        readLinesFrom read (number + 1) next rest = .ok last := by
  rw [readLinesFrom]
  cases read state (trim line) <;> simp

/-- The steps of a reader, one for each reading. -/
inductive Steps {σ ρ : Type} (Step : σ → ρ → σ → Prop) : σ → List ρ → σ → Prop
  | nil (state : σ) : Steps Step state [] state
  | cons {state next last : σ} {reading : ρ} {readings : List ρ} (hstep : Step state reading next)
    (hsteps : Steps Step next readings last) : Steps Step state (reading :: readings) last

theorem steps_cons_iff {σ ρ : Type} {Step : σ → ρ → σ → Prop} {state last : σ} {reading : ρ}
    {readings : List ρ} :
    Steps Step state (reading :: readings) last ↔
      ∃ next, Step state reading next ∧ Steps Step next readings last := by
  constructor
  · rintro (_ | ⟨hstep, hsteps⟩)
    exact ⟨_, hstep, hsteps⟩
  · rintro ⟨next, hstep, hsteps⟩
    exact .cons hstep hsteps

/-- What is known of the reader on each line is known of it on all lines. -/
theorem readLinesFrom_eq_ok_iff {σ ε ρ : Type} {read : σ → List Char → Except ε σ}
    {R : List Char → ρ → Prop} {Step : σ → ρ → σ → Prop}
    (hread : ∀ state line next, read state line = .ok next ↔
      ∃ reading, R line reading ∧ Step state reading next)
    {number : Nat} {state last : σ} {texts : List (List Char)} :
    readLinesFrom read number state texts = .ok last ↔
      ∃ readings, List.Forall₂ (fun line reading => R (trim line) reading) texts readings ∧
        Steps Step state readings last := by
  induction texts generalizing number state with
  | nil =>
    constructor
    · rintro ⟨⟩
      exact ⟨[], .nil, .nil _⟩
    · rintro ⟨_, ⟨⟩, ⟨⟩⟩
      rfl
  | cons line texts ih =>
    rw [readLinesFrom_cons_eq_ok_iff]
    constructor
    · rintro ⟨next, hnext, hrest⟩
      obtain ⟨reading, hreading, hstep⟩ := (hread _ _ _).mp hnext
      obtain ⟨readings, hreadings, hsteps⟩ := ih.mp hrest
      exact ⟨reading :: readings, .cons hreading hreadings, .cons hstep hsteps⟩
    · rintro ⟨_, _ | ⟨hreading, hreadings⟩, _ | ⟨hstep, hsteps⟩⟩
      exact ⟨_, (hread _ _ _).mpr ⟨_, hreading, hstep⟩, ih.mpr ⟨_, hreadings, hsteps⟩⟩

/-- A reader of lines fails at the first line that it refuses. -/
theorem readLinesFrom_eq_error_iff {σ ε : Type} {read : σ → List Char → Except ε σ}
    {number : Nat} {state : σ} {error : AtLine ε} :
    readLinesFrom read number state texts = .error error ↔
      ∃ before line after next, texts = before ++ line :: after ∧
        error.line = number + before.length ∧
        readLinesFrom read number state before = .ok next ∧
        read next (trim line) = .error error.cause := by
  constructor
  · intro h
    induction texts generalizing number state with
    | nil => cases h
    | cons line texts ih =>
      rw [readLinesFrom] at h
      cases hread : read state (trim line) with
      | error cause =>
        rw [hread] at h
        cases h
        exact ⟨[], line, texts, state, rfl, rfl, rfl, hread⟩
      | ok next =>
        rw [hread] at h
        obtain ⟨before, refused, after, last, rfl, hnumber, hbefore, hrefused⟩ := ih h
        refine ⟨line :: before, refused, after, last, rfl, ?_, ?_, hrefused⟩
        · rw [hnumber, List.length_cons]
          omega
        · rw [readLinesFrom, hread]
          exact hbefore
  · rintro ⟨before, line, after, next, rfl, hnumber, hbefore, hrefused⟩
    rw [readLinesFrom_append, hbefore]
    change readLinesFrom read _ next (line :: after) = _
    rw [readLinesFrom, hrefused, ← hnumber]

end WordMachine.Text
