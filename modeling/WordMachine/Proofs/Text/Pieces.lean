import WordMachine.Proofs.Text.Stretch
import WordMachine.Text.Pieces

/-!
# Pieces put together

Cutting a text at its separators is `List.splitOn` (`pieces_eq_splitOn`), so pieces that hold no
separator are found again in the text that they make up with separators between them
(`pieces_append`). Cutting at the first separator splits a text there and nowhere else
(`cutAt?_eq_some_iff`). Trimming takes blanks away on both sides (`exists_blanks_trim`), and blanks
around a text do not count (`trim_append`).
-/

namespace WordMachine.Text

variable {separator : Char} {text piece first rest before after : List Char}

/-! ### Cutting at every separator -/

theorem pieces_eq_splitOn (separator : Char) (text : List Char) :
    pieces separator text = text.splitOn separator := by
  induction text with
  | nil => rfl
  | cons c text ih =>
    rw [List.splitOn_cons_eq_if_modifyHead, ← ih]
    by_cases hc : c = separator
    · rw [if_pos (beq_iff_eq.mpr hc), hc, pieces_cons_self]
    · rw [if_neg (mt beq_iff_eq.mp hc), pieces_cons_of_ne hc]
      rfl

theorem pieces_append_separator (separator : Char) (first rest : List Char) :
    pieces separator (first ++ separator :: rest) =
      pieces separator first ++ pieces separator rest := by
  simp only [pieces_eq_splitOn, List.splitOn_append_cons_self]

theorem pieces_of_notMem (h : separator ∉ piece) : pieces separator piece = [piece] := by
  rw [pieces_eq_splitOn, List.splitOn_eq_singleton h]

theorem pieces_append (h : separator ∉ piece) (rest : List Char) :
    pieces separator (piece ++ separator :: rest) = piece :: pieces separator rest := by
  rw [pieces_append_separator, pieces_of_notMem h, List.singleton_append]

/-! ### Texts with separators between them -/

/-- Texts with a separator between them: the first text, and then each other one behind a
separator. -/
theorem toList_intercalate_cons (separator first : String) (texts : List String) :
    (separator.intercalate (first :: texts)).toList =
      first.toList ++ texts.flatMap fun text => separator.toList ++ text.toList := by
  induction texts generalizing first with
  | nil => simp
  | cons text texts ih =>
    rw [String.intercalate_cons_cons, String.toList_append, String.toList_append, ih]
    simp

/-! ### Cutting at the first separator -/

theorem cutAt?_append (h : separator ∉ first) (rest : List Char) :
    cutAt? separator (first ++ separator :: rest) = some (first, rest) := by
  have hfirst : ∀ c ∈ first, decide (c ≠ separator) = true := by
    rintro c hc
    refine decide_eq_true ?_
    rintro rfl
    exact h hc
  have hstops : StopsBefore (fun c => decide (c ≠ separator)) (separator :: rest) :=
    stopsBefore_cons (decide_eq_false (not_not.mpr rfl)) rest
  obtain ⟨htake, hdrop⟩ := takeWhile_dropWhile_iff.mpr ⟨rfl, hfirst, hstops⟩
  rw [cutAt?, hdrop, htake]

/-- A text is cut at its first separator. -/
theorem cutAt?_eq_some_iff :
    cutAt? separator text = some (first, rest) ↔
      text = first ++ separator :: rest ∧ separator ∉ first := by
  constructor
  · intro h
    rw [cutAt?] at h
    obtain ⟨hsplit, hfirst, hstops⟩ :=
      eq_takeWhile_append_dropWhile (fun c => decide (c ≠ separator)) text
    split at h
    · cases h
    · next c _ hdrop =>
      cases h
      rw [hdrop] at hsplit hstops
      obtain rfl : c = separator := not_not.mp (of_decide_eq_false (hstops c rfl))
      exact ⟨hsplit, fun hmem => of_decide_eq_true (hfirst _ hmem) rfl⟩
  · rintro ⟨rfl, h⟩
    exact cutAt?_append h rest

/-! ### Trimming -/

/-- Blanks at the end are dropped. -/
theorem trimEnd_append (hafter : ∀ c ∈ after, isBlank c = true) (text : List Char) :
    trimEnd (text ++ after) = trimEnd text := by
  rw [trimEnd, List.reverse_append,
    List.dropWhile_append_of_pos fun c hc => hafter c (List.mem_reverse.mp hc), trimEnd]

/-- Blanks around a text do not count. -/
theorem trim_append (hbefore : ∀ c ∈ before, isBlank c = true)
    (hafter : ∀ c ∈ after, isBlank c = true) (text : List Char) :
    trim (before ++ text ++ after) = trim text := by
  rw [trim, List.append_assoc, List.dropWhile_append_of_pos hbefore, List.dropWhile_append, trim]
  split
  · next hblank =>
    rw [List.dropWhile_eq_nil_iff.mpr hafter, List.isEmpty_iff.mp hblank]
  · exact trimEnd_append hafter _

/-- A text is what is left of it by trimming, with blanks around it. -/
theorem exists_blanks_trim (text : List Char) :
    ∃ before after, text = before ++ trim text ++ after ∧ (∀ c ∈ before, isBlank c = true) ∧
      ∀ c ∈ after, isBlank c = true := by
  let body := text.dropWhile isBlank
  refine ⟨text.takeWhile isBlank, (body.reverse.takeWhile isBlank).reverse, ?_,
    fun c => List.mem_takeWhile_imp, fun c hc => List.mem_takeWhile_imp (List.mem_reverse.mp hc)⟩
  have hbody : trim text ++ (body.reverse.takeWhile isBlank).reverse = body := by
    rw [trim, trimEnd, ← List.reverse_append, List.takeWhile_append_dropWhile, List.reverse_reverse]
  rw [List.append_assoc, hbody, List.takeWhile_append_dropWhile]

theorem trim_eq_nil_iff : trim text = [] ↔ ∀ c ∈ text, isBlank c = true := by
  constructor
  · intro h
    obtain ⟨before, after, htext, hbefore, hafter⟩ := exists_blanks_trim text
    rw [h, List.append_nil] at htext
    rw [htext]
    exact List.forall_mem_append.mpr ⟨hbefore, hafter⟩
  · intro h
    rw [trim, List.dropWhile_eq_nil_iff.mpr h]
    rfl

/-- Nothing is trimmed where there is no blank. -/
theorem trim_eq_self (h : ∀ c ∈ text, isBlank c = false) : trim text = text := by
  have hkept {text : List Char} (hall : ∀ c ∈ text, isBlank c = false) :
      text.dropWhile isBlank = text := by
    cases text with
    | nil => rfl
    | cons c text => rw [List.dropWhile_cons_of_neg (by simp [hall c (.head _)])]
  rw [trim, trimEnd, hkept h, hkept fun c hc => h c (List.mem_reverse.mp hc), List.reverse_reverse]

end WordMachine.Text
