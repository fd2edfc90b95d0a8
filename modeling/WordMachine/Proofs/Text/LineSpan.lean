import Mathlib.Data.List.DropRight
import WordMachine.Proofs.Text.Line
import WordMachine.Proofs.Text.Utf8

/-!
# Where lines stand

A line stands in a text behind the whole lines before it, and is followed by the carriage returns at
its end (`LineAt`). Its span is that of the line without these carriage returns, counted in bytes
(`exists_lineAt`).
-/

namespace WordMachine.Text

variable {line rest : List Char} {texts : List (List Char)}

/-! ### Bytes -/

/-- The bytes of lines with their line feeds. -/
private theorem foldr_utf8Length (texts : List (List Char)) :
    texts.foldr (fun line bytes => utf8Length line + 1 + bytes) 0 =
      utf8Length (texts.flatMap (· ++ ['\n'])) := by
  induction texts with
  | nil => rfl
  | cons line texts ih =>
    rw [List.foldr_cons, ih, List.flatMap_cons, utf8Length_append, utf8Length_append]
    rfl

/-! ### Whole lines -/

private theorem count_flatMap_feed (h : ∀ line ∈ texts, '\n' ∉ line) :
    (texts.flatMap (· ++ ['\n'])).count '\n' = texts.length := by
  induction texts with
  | nil => rfl
  | cons line texts ih =>
    obtain ⟨hline, htexts⟩ := List.forall_mem_cons.mp h
    rw [List.flatMap_cons, List.count_append, List.count_append, ih htexts,
      List.count_eq_zero_of_not_mem hline, List.count_singleton_self, List.length_cons]
    omega

private theorem getLast?_flatMap_feed (texts : List (List Char)) :
    texts.flatMap (· ++ ['\n']) = [] ∨
      (texts.flatMap (· ++ ['\n'])).getLast? = some '\n' := by
  cases texts using List.reverseRecOn with
  | nil => exact .inl rfl
  | append_singleton texts line => simp

/-- What can stand behind a line in a text: nothing, or a line feed and the lines after it. -/
def IsBehindLine (rest : List Char) : Prop := rest = [] ∨ rest.head? = some '\n'

/-- A line is found at the head of a text, whatever is behind it. -/
theorem exists_lines_append (hfeed : '\n' ∉ line) (hne : line ≠ []) (hrest : IsBehindLine rest) :
    ∃ others, lines (line ++ rest) = line :: others := by
  obtain rfl | hhead := hrest
  · exact ⟨[], by rw [List.append_nil, lines_of_notMem hfeed hne]⟩
  · obtain ⟨others, rfl⟩ := List.head?_eq_some_iff.mp hhead
    exact ⟨lines others, lines_append_feed hfeed others⟩

/-! ### Spans -/

/-- Only carriage returns are missing in a line without those at its end. -/
private theorem exists_returns (line : List Char) :
    ∃ returns, line = withoutReturns line ++ returns ∧ (∀ c ∈ returns, c = '\r') ∧
      (withoutReturns line).getLast? ≠ some '\r' := by
  refine ⟨line.rtakeWhile (· = '\r'), List.rdropWhile_append_rtakeWhile.symm, ?_, ?_⟩
  · exact fun c hc => by simpa using List.mem_rtakeWhile_imp hc
  · intro hlast
    obtain ⟨hne, hreturn⟩ := List.mem_getLast?_eq_getLast hlast
    exact line.rdropWhile_last_not (· = '\r') hne (decide_eq_true hreturn.symm)

theorem lineSpan_eq {text : List Char} {before after : List (List Char)}
    (h : lines text = before ++ line :: after) :
    lineSpan text (before.length + 1) =
      ⟨utf8Length (before.flatMap (· ++ ['\n'])), utf8Length (withoutReturns line)⟩ := by
  have hline : lineAt? text (before.length + 1) = some line := by
    rw [lineAt?, if_neg (Nat.succ_ne_zero _), Nat.add_sub_cancel, h,
      List.getElem?_append_right (Nat.le_refl _), Nat.sub_self]
    rfl
  simp only [lineSpan, hline, h, Nat.add_sub_cancel, List.take_left, foldr_utf8Length]

/-- Where there is no line with the number, the span is the end of the text. -/
theorem lineSpan_of_length_lt {text : List Char} {number : Nat}
    (h : (lines text).length < number) : lineSpan text number = ⟨utf8Length text, 0⟩ := by
  have hline : lineAt? text number = none := by
    rw [lineAt?, if_neg (Nat.ne_zero_of_lt h), List.getElem?_eq_none (Nat.le_sub_one_of_lt h)]
  rw [lineSpan, hline]

example : lineSpan "first\nsecond line\r\nthird".toList 9 = ⟨24, 0⟩ := by decide +kernel

/-- The line with a number, counted from one, as it stands in a text: behind the whole lines that
make up `before`, and with nothing but carriage returns between it and its end. -/
structure LineAt (number : Nat) (before line returns : List Char) : Prop where
  /-- One line feed ends each of the lines before. -/
  count_feed : before.count '\n' + 1 = number
  whole : before = [] ∨ before.getLast? = some '\n'
  feed_notMem : '\n' ∉ line
  getLast?_ne : line.getLast? ≠ some '\r'
  eq_return : ∀ c ∈ returns, c = '\r'

/-- Each line of a text stands somewhere in it, and its span is made up of the bytes there. -/
theorem exists_lineAt {text : List Char} {before after : List (List Char)}
    (h : lines text = before ++ line :: after) :
    ∃ returns rest,
      text = before.flatMap (· ++ ['\n']) ++ withoutReturns line ++ returns ++ rest ∧
        line = withoutReturns line ++ returns ∧ IsBehindLine rest ∧
        LineAt (before.length + 1) (before.flatMap (· ++ ['\n'])) (withoutReturns line) returns ∧
        lineSpan text (before.length + 1) =
          ⟨(utf8 (.ofList (before.flatMap (· ++ ['\n'])))).length,
            (utf8 (.ofList (withoutReturns line))).length⟩ := by
  have hfeeds (other : List Char) (hother : other ∈ before ++ line :: after) : '\n' ∉ other :=
    feed_notMem_of_mem_lines (h ▸ hother)
  obtain ⟨rest, htext, hrest⟩ := exists_split_of_lines_eq h
  obtain ⟨returns, hreturns, hall, hlast⟩ := exists_returns line
  refine ⟨returns, rest, ?_, hreturns, hrest, ⟨?_, getLast?_flatMap_feed before, ?_, hlast, hall⟩,
    ?_⟩
  · rw [List.append_assoc _ _ returns, ← hreturns, List.append_assoc, ← htext]
  · rw [count_flatMap_feed fun other hother => hfeeds other (List.mem_append_left _ hother)]
  · have hfeed := hfeeds line (List.mem_append_right _ (.head after))
    exact fun hmem => hfeed (hreturns ▸ List.mem_append_left _ hmem)
  · rw [length_utf8_ofList, length_utf8_ofList, lineSpan_eq h]

end WordMachine.Text
