import WordMachine.Annotation.File
import WordMachine.Proofs.Text.LineSpan
import WordMachine.Symbol.File

/-!
# Faults point at the first line that is refused

Symbol files and annotation files are read line by line, so that a fault lies with the first line
that is refused: the lines before it make up a text that is accepted, and the lines after it have no
part in the fault. The label of the diagnostic covers that line (`PointsAtFirstFault`).

This holds of every reader of lines that accepts blank lines (`pointsAtFirstFault_of_readLines`),
and so of both kinds of files (`pointsAtFirstFault_of_ofText`).
-/

namespace WordMachine

open Text

namespace Diagnostic

/-- A fault in a text **points at the first line that is refused**, when it names a line of the text
such that

* the text before this line is accepted;
* whatever stands behind this line, the fault is the same, and so is its diagnostic;
* the label of the diagnostic covers the bytes of this line without the carriage returns at its
  end. -/
structure PointsAtFirstFault {ε α : Type} (parse : List Char → Except (AtLine ε) α)
    (diagnose : List Char → AtLine ε → Diagnostic) (text : List Char) (error : AtLine ε) :
    Prop where
  line_pos : 1 ≤ error.line
  line_le : error.line ≤ (lines text).length
  exists_lineAt : ∃ before line returns rest,
    text = before ++ line ++ returns ++ rest ∧ LineAt error.line before line returns ∧
      IsBehindLine rest ∧ (∃ found, parse before = .ok found) ∧
      (∀ rest', IsBehindLine rest' →
        parse (before ++ line ++ returns ++ rest') = .error error ∧
          diagnose (before ++ line ++ returns ++ rest') error = diagnose text error) ∧
      (diagnose text error).label.span =
        ⟨(utf8 (.ofList before)).length, (utf8 (.ofList line)).length⟩

section

variable {σ ε α : Type} {read : σ → List Char → Except ε σ} {start : σ} {finish : σ → α}
  {parse : List Char → Except (AtLine ε) α} {text : List Char} {error : AtLine ε}

private theorem eq_error_of_map_readLines
    (h : (readLines read start text).map finish = .error error) :
    readLinesFrom read 1 start (lines text) = .error error := by
  rw [readLines] at h
  cases hread : readLinesFrom read 1 start (lines text) with
  | ok state =>
    rw [hread] at h
    cases h
  | error e =>
    rw [hread] at h
    exact congrArg Except.error (Except.error.inj h)

/-- A reader of lines that accepts blank lines points at the first line that it refuses. -/
theorem pointsAtFirstFault_of_readLines (origin : String) (kind : ε → Kind)
    (message : ε → String) (hblank : ∀ state, ∃ next, read state [] = .ok next)
    (hparse : ∀ text, parse text = (readLines read start text).map finish)
    (h : parse text = .error error) :
    PointsAtFirstFault parse
      (fun text error => atLine origin text error.line (kind error.cause) (message error.cause))
      text error := by
  obtain ⟨earlier, refused, later, state, hlines, hnumber, hearlier, hrefused⟩ :=
    readLinesFrom_eq_error_iff.mp (eq_error_of_map_readLines ((hparse text).symm.trans h))
  have hfeeds (line : List Char) (hline : line ∈ earlier ++ refused :: later) : '\n' ∉ line :=
    feed_notMem_of_mem_lines (hlines ▸ hline)
  have hbefore (line : List Char) (hline : line ∈ earlier) : '\n' ∉ line :=
    hfeeds line (List.mem_append_left _ hline)
  -- The line that is refused is not blank, so that it is a line also at the end of a text.
  have hne : refused ≠ [] := by
    rintro rfl
    obtain ⟨next, hnext⟩ := hblank state
    rw [trim_nil, hnext] at hrefused
    cases hrefused
  have hline : error.line = earlier.length + 1 := by rw [hnumber, Nat.add_comm]
  obtain ⟨returns, rest, htext, hreturns, hrest, hat, hspan⟩ := exists_lineAt hlines
  refine ⟨?_, ?_, _, _, returns, rest, htext, hline ▸ hat, hrest, ?_, fun rest' hrest' => ?_, ?_⟩
  · omega
  · rw [hlines, List.length_append, List.length_cons]
    omega
  · rw [hparse, readLines, lines_flatMap_feed hbefore, hearlier]
    exact ⟨_, rfl⟩
  · -- In every such text the same lines lead up to the one that is refused.
    obtain ⟨others, hothers⟩ := exists_lines_append
      (hfeeds refused (List.mem_append_right _ (.head later))) hne hrest'
    have hlines' : lines (earlier.flatMap (· ++ ['\n']) ++ withoutReturns refused ++ returns ++
        rest') = earlier ++ refused :: others := by
      rw [List.append_assoc _ _ returns, ← hreturns, List.append_assoc,
        lines_flatMap_append hbefore, hothers]
    refine ⟨?_, ?_⟩
    · rw [hparse, readLines, readLinesFrom_eq_error_iff.mpr
        ⟨earlier, refused, others, state, hlines', hnumber, hearlier, hrefused⟩]
      rfl
    · simp only [atLine, hline, lineSpan_eq hlines', lineSpan_eq hlines]
  · rw [atLine, hline, hspan]

end

/-- **Faults in symbol files and annotation files point at the first line that is refused.** -/
theorem pointsAtFirstFault_of_ofText (origin : String) (symbols : SymbolTable)
    (text : List Char) :
    (∀ error, SymbolTable.ofText text = .error error →
      PointsAtFirstFault SymbolTable.ofText (SymbolTable.diagnostic origin) text error) ∧
    ∀ error, Annotations.ofText symbols text = .error error →
      PointsAtFirstFault (Annotations.ofText symbols) (Annotations.diagnostic origin) text
        error := by
  have hsymbols (text : List Char) :
      SymbolTable.ofText text = (readLines SymbolTable.addLine .empty text).map id := by
    rw [SymbolTable.ofText]
    cases readLines SymbolTable.addLine .empty text <;> rfl
  have hblank (table : SymbolTable) : table.addLine [] = .ok table := rfl
  have hblank' (found : List Annotation) : Annotations.addLine symbols found [] = .ok found := rfl
  refine ⟨fun error h => ?_, fun error h => ?_⟩
  · exact pointsAtFirstFault_of_readLines origin SymbolLineError.kind SymbolLineError.message
      (fun table => ⟨table, hblank table⟩) hsymbols h
  · exact pointsAtFirstFault_of_readLines origin AnnotationLineError.kind
      AnnotationLineError.message (fun found => ⟨found, hblank' found⟩) (fun _ => rfl) h

/-- A name that is given twice, and an address that is annotated twice: in the third line each time,
with line ends of every kind and characters of several bytes around. -/
theorem pointsAtFirstFault_of_ofText_repeated :
    SymbolTable.ofText "é 4\r\n\né 6-8\r\r\nß".toList =
        .error ⟨3, .rejected (.duplicateName "é")⟩ ∧
      PointsAtFirstFault SymbolTable.ofText (SymbolTable.diagnostic "symbols")
        "é 4\r\n\né 6-8\r\r\nß".toList ⟨3, .rejected (.duplicateName "é")⟩ ∧
      (SymbolTable.diagnostic "symbols" "é 4\r\n\né 6-8\r\r\nß".toList
        ⟨3, .rejected (.duplicateName "é")⟩).label.span = ⟨7, 6⟩ ∧
      Annotations.ofText .empty "7 // é\r\n\n7-9".toList = .error ⟨3, .duplicateStart 7⟩ ∧
      PointsAtFirstFault (Annotations.ofText .empty) (Annotations.diagnostic "notes")
        "7 // é\r\n\n7-9".toList ⟨3, .duplicateStart 7⟩ := by
  have hsymbols : SymbolTable.ofText "é 4\r\n\né 6-8\r\r\nß".toList =
      .error ⟨3, .rejected (.duplicateName "é")⟩ := by decide +kernel
  have hnotes : Annotations.ofText .empty "7 // é\r\n\n7-9".toList =
      .error ⟨3, .duplicateStart 7⟩ := by decide +kernel
  exact ⟨hsymbols, (pointsAtFirstFault_of_ofText "symbols" .empty _).1 _ hsymbols,
    by decide +kernel, hnotes, (pointsAtFirstFault_of_ofText "notes" .empty _).2 _ hnotes⟩

end Diagnostic

end WordMachine
