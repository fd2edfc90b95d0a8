import WordMachine.Status

/-!
# Stripping escape sequences

An escape sequence goes from an escape character through the next `m`. `Strips` says what is left of
a text without its escape sequences, from the left to the right, and `strip` gives exactly that
(`strip_eq_iff`).

Of what stands before a place in a text only one thing matters for what is stripped behind it:
whether the place is inside of a sequence (`stripFrom_append`). That is so if an escape character
stands before it and no `m` in between, wherever sequences began (`insideAfter_eq_true_iff`). The
sequences that select colours and end them strip to nothing at any place, so that stripping undoes
what is done to show a text in a colour (`strip_traceText`).
-/

namespace WordMachine.Status

open Text

variable {inside : Bool} {text kept body rest : List Char} {c : Char}

/-! ### What is left of a text -/

/-- What is left of a text without its escape sequences, from the left to the right. A sequence goes
from an escape character through the next `m`, or to the end of the text if no `m` follows. -/
inductive Strips : List Char → List Char → Prop
  | nil : Strips [] []
  | character {c : Char} (hc : c ≠ '\x1b') {text kept : List Char} (h : Strips text kept) :
    Strips (c :: text) (c :: kept)
  | sequence {body : List Char} (hbody : 'm' ∉ body) {text kept : List Char}
      (h : Strips text kept) : Strips ('\x1b' :: (body ++ 'm' :: text)) kept
  | unterminated {body : List Char} (hbody : 'm' ∉ body) : Strips ('\x1b' :: body) []

/-- Every text falls into characters and sequences. -/
private theorem exists_strips (text : List Char) : ∃ kept, Strips text kept := by
  -- By induction on the length, since a sequence is taken off the front as a whole.
  induction hlength : text.length using Nat.strongRecOn generalizing text with
  | ind n ih =>
    subst hlength
    match text with
    | [] => exact ⟨[], .nil⟩
    | c :: rest =>
      by_cases hc : c = '\x1b'
      · subst hc
        by_cases hm : 'm' ∈ rest
        · obtain ⟨body, later, rfl, hbody⟩ := List.eq_append_cons_of_mem hm
          obtain ⟨kept, hkept⟩ := ih later.length (by simp; omega) later rfl
          exact ⟨kept, .sequence hbody hkept⟩
        · exact ⟨[], .unterminated hm⟩
      · obtain ⟨kept, hkept⟩ := ih rest.length (by simp) rest rfl
        exact ⟨c :: kept, .character hc hkept⟩

/-- No escape character is left. -/
private theorem Strips.escape_notMem (h : Strips text kept) : '\x1b' ∉ kept := by
  induction h with
  | nil => exact List.not_mem_nil
  | character hc _ ih => exact List.not_mem_cons_of_ne_of_not_mem (Ne.symm hc) ih
  | sequence _ _ ih => exact ih
  | unterminated _ => exact List.not_mem_nil

/-- A text without an escape character is left as it is. -/
private theorem strips_self (h : '\x1b' ∉ text) : Strips text text := by
  induction text with
  | nil => exact .nil
  | cons c text ih =>
    exact .character (List.ne_of_not_mem_cons h).symm (ih (List.not_mem_of_not_mem_cons h))

/-! ### Places inside of a sequence -/

/-- Whether a place is inside of a sequence, when the place before the character is or is not. -/
def insideBehind (inside : Bool) (c : Char) : Bool := if inside then c != 'm' else c == '\x1b'

/-- Whether the end of a text is inside of a sequence, which may have begun before the text. -/
def insideAfter (inside : Bool) (text : List Char) : Bool := text.foldl insideBehind inside

theorem insideAfter_cons (inside : Bool) (c : Char) (rest : List Char) :
    insideAfter inside (c :: rest) = insideAfter (insideBehind inside c) rest := rfl

/-- A text **ends in an escape** if no `m` follows one of its escape characters. -/
def EndsInEscape (text : List Char) : Prop :=
  ∃ before body, text = before ++ '\x1b' :: body ∧ 'm' ∉ body

theorem not_endsInEscape_nil : ¬EndsInEscape [] :=
  fun ⟨_, _, h, _⟩ => List.append_ne_nil_of_right_ne_nil _ (List.cons_ne_nil _ _) h.symm

theorem endsInEscape_cons_iff :
    EndsInEscape (c :: rest) ↔ c = '\x1b' ∧ 'm' ∉ rest ∨ EndsInEscape rest := by
  constructor
  · rintro ⟨before, body, h, hbody⟩
    cases before with
    | nil =>
      cases h
      exact .inl ⟨rfl, hbody⟩
    | cons first before =>
      cases h
      exact .inr ⟨before, body, rfl, hbody⟩
  · rintro (⟨rfl, hrest⟩ | ⟨before, body, rfl, hbody⟩)
    · exact ⟨[], rest, rfl, hrest⟩
    · exact ⟨c :: before, body, rfl, hbody⟩

/-- The end of a text is inside of a sequence if there is an escape character with no `m` behind it.
It does not matter whether a sequence begins with this escape character or goes on there. -/
theorem insideAfter_eq_true_iff :
    insideAfter inside text = true ↔ EndsInEscape text ∨ inside = true ∧ 'm' ∉ text := by
  induction text generalizing inside with
  | nil => simp [insideAfter, not_endsInEscape_nil]
  | cons c text ih =>
    rw [insideAfter_cons, ih, endsInEscape_cons_iff, List.mem_cons, insideBehind]
    cases inside with
    | false => simp [or_comm]
    | true =>
      have hescape : c = '\x1b' → c ≠ 'm' := by
        rintro rfl
        decide
      simp only [if_true, bne_iff_ne, true_and]
      grind

theorem insideAfter_false_iff : insideAfter false text = true ↔ EndsInEscape text := by
  simp [insideAfter_eq_true_iff]

instance (text : List Char) : Decidable (EndsInEscape text) :=
  decidable_of_iff (insideAfter false text = true) insideAfter_false_iff

/-! ### Stripping in parts -/

private theorem stripFrom_cons_of_ne (hc : c ≠ '\x1b') (rest : List Char) :
    stripFrom false (c :: rest) = c :: stripFrom false rest := by
  simp [stripFrom, hc]

/-- What is stripped behind a place depends on whether this place is inside of a sequence. -/
theorem stripFrom_append (inside : Bool) (text rest : List Char) :
    stripFrom inside (text ++ rest) =
      stripFrom inside text ++ stripFrom (insideAfter inside text) rest := by
  induction text generalizing inside with
  | nil => rfl
  | cons c text ih =>
    rw [insideAfter_cons, List.cons_append]
    cases inside with
    | true => exact ih (c != 'm')
    | false =>
      by_cases hc : c = '\x1b'
      · subst hc
        exact ih true
      · rw [stripFrom_cons_of_ne hc, stripFrom_cons_of_ne hc, ih, List.cons_append, insideBehind,
          if_neg Bool.false_ne_true, beq_eq_false_iff_ne.mpr hc]

/-- Inside of a sequence nothing is kept up to the next `m`. -/
private theorem stripFrom_true_of_notMem (h : 'm' ∉ body) : stripFrom true body = [] := by
  induction body with
  | nil => rfl
  | cons c body ih =>
    have hc : (c != 'm') = true := bne_iff_ne.mpr (List.ne_of_not_mem_cons h).symm
    rw [stripFrom, if_pos rfl, hc, ih (List.not_mem_of_not_mem_cons h)]

private theorem stripFrom_true_append (h : 'm' ∉ body) (text : List Char) :
    stripFrom true (body ++ 'm' :: text) = strip text := by
  rw [stripFrom_append, stripFrom_true_of_notMem h, insideAfter_eq_true_iff.mpr (.inr ⟨rfl, h⟩)]
  rfl

private theorem Strips.strip_eq (h : Strips text kept) : strip text = kept := by
  induction h with
  | nil => rfl
  | character hc _ ih => exact (stripFrom_cons_of_ne hc _).trans (congrArg _ ih)
  | sequence hbody _ ih => exact (stripFrom_true_append hbody _).trans ih
  | unterminated hbody => exact stripFrom_true_of_notMem hbody

/-- Stripping leaves a text without its escape sequences. -/
theorem strip_eq_iff : strip text = kept ↔ Strips text kept := by
  refine ⟨?_, Strips.strip_eq⟩
  rintro rfl
  obtain ⟨kept, hkept⟩ := exists_strips text
  rwa [hkept.strip_eq]

/-- A sequence may hold escape characters, and need not end. -/
example : strip "a\x1b[1\x1b[0mb\x1b[".toList = "ab".toList := by decide

private theorem escape_notMem_strip (text : List Char) : '\x1b' ∉ strip text :=
  (strip_eq_iff.mp rfl).escape_notMem

/-- Exactly the texts without an escape character are left as they are. -/
private theorem strip_eq_self_iff : strip text = text ↔ '\x1b' ∉ text :=
  ⟨fun h => h ▸ escape_notMem_strip text, fun h => (strips_self h).strip_eq⟩

/-- Texts are stripped apart, with anything behind them, exactly if they do not end in an escape. -/
private theorem strip_append_iff :
    (∀ rest, strip (text ++ rest) = strip text ++ strip rest) ↔ ¬EndsInEscape text := by
  constructor
  · intro h hends
    have hinside : insideAfter false text = true := insideAfter_false_iff.mpr hends
    -- A space would be kept on its own, but not inside of a sequence.
    have hspace : strip text ++ stripFrom true [' '] = strip text ++ strip [' '] := by
      rw [← h, strip, strip, stripFrom_append, hinside]
    exact absurd (List.append_cancel_left hspace) (by decide)
  · intro hends rest
    have hinside : insideAfter false text = false :=
      Bool.eq_false_iff.mpr (mt insideAfter_false_iff.mp hends)
    rw [strip, stripFrom_append, hinside, strip, strip]

/-- An `m` behind a sequence that has not ended belongs to it. -/
example : EndsInEscape "a\x1b[".toList ∧
    strip "a\x1b[m".toList ≠ strip "a\x1b[".toList ++ strip "m".toList := by decide

/-! ### Colours -/

/-- The sequence of a colour strips to nothing, and ends a sequence that has begun before it. -/
private theorem stripFrom_sequence_append (inside : Bool) (colour : Colour) (rest : List Char) :
    stripFrom inside (colour.sequence ++ rest) = strip rest := by
  cases inside <;> cases colour <;> rfl

private theorem stripFrom_reset_append (inside : Bool) (rest : List Char) :
    stripFrom inside (reset ++ rest) = strip rest := by
  cases inside <;> rfl

/-- What ends all colours leaves nothing at the end of a text. -/
private theorem stripFrom_append_reset (inside : Bool) (text : List Char) :
    stripFrom inside (text ++ reset) = stripFrom inside text := by
  rw [stripFrom_append, ← List.append_nil reset, stripFrom_reset_append]
  exact List.append_nil _

/-- Selecting a colour again leaves nothing, wherever the text ends all colours. -/
private theorem stripFrom_reselect (inside : Bool) (colour : Colour) (text : List Char) :
    stripFrom inside (reselect colour text) = stripFrom inside text := by
  fun_induction reselect colour text generalizing inside with
  | case1 rest ih =>
    have hreset : '\x1b' :: '[' :: '0' :: 'm' :: rest = reset ++ rest := rfl
    rw [hreset, List.append_assoc, stripFrom_reset_append, stripFrom_reset_append, strip,
      stripFrom_sequence_append]
    exact ih false
  | case2 c rest _ ih => simp only [stripFrom, ih]
  | case3 => rfl

/-- Stripping removes a colour around a text. -/
private theorem strip_coloured (colour : Colour) (text : List Char) :
    strip (colour.sequence ++ text ++ reset) = strip text := by
  rw [List.append_assoc, strip, stripFrom_sequence_append]
  exact stripFrom_append_reset false text

private theorem strip_paint (coloured : Bool) (colour : Colour) (text : List Char) :
    strip (paint coloured colour 0 (String.ofList text)).toList = strip text := by
  cases coloured with
  | false => simp [paint, alignRight_zero]
  | true =>
    have htext : (paint true colour 0 (String.ofList text)).toList =
        colour.sequence ++ reselect colour text ++ reset := by
      simp [paint, alignRight_zero]
    rw [htext, strip_coloured, strip, stripFrom_reselect, strip]

/-- However trace text is shown, it is the same when it is stripped. -/
theorem strip_traceText (style : Style) (text : List Char) :
    strip (traceText style text).toList = strip text := by
  rw [traceText]
  split
  · rw [String.toList_ofList, strip_eq_self_iff]
    exact escape_notMem_strip text
  · exact strip_paint style.coloured .blue text

/-! ### The main result -/

/-- **Stripping removes exactly the escape sequences.** What is left of a text is the text without
each stretch from an escape character through the next `m`, or to the end if there is none, from the
left to the right.

Hence no escape character is left, so that stripping again changes nothing, and exactly the texts
without an escape character are left as they are. A colour around a text is removed, and so is
whatever is added to a text to show it. A text is stripped apart from all that may follow it
exactly if it does not end inside of a sequence. -/
theorem strip_exact :
    (∀ text kept, strip text = kept ↔ Strips text kept) ∧
      (∀ text, '\x1b' ∉ strip text) ∧
      (∀ text, strip (strip text) = strip text) ∧
      (∀ text, strip text = text ↔ '\x1b' ∉ text) ∧
      (∀ (colour : Colour) text, strip (colour.sequence ++ text ++ reset) = strip text) ∧
      (∀ style text, strip (traceText style text).toList = strip text) ∧
      ∀ text, (∀ rest, strip (text ++ rest) = strip text ++ strip rest) ↔ ¬EndsInEscape text :=
  ⟨fun _ _ => strip_eq_iff, escape_notMem_strip,
    fun text => strip_eq_self_iff.mpr (escape_notMem_strip text), fun _ => strip_eq_self_iff,
    strip_coloured, strip_traceText, fun _ => strip_append_iff⟩

end WordMachine.Status
