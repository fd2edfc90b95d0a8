import WordMachine.Proofs.Command.Activity
import WordMachine.Proofs.Text.Spelling
import WordMachine.Proofs.Text.Utf8

/-!
# What the text of a string tells

`read-string` prints the text of a string, with escapes for the bytes that are not printable, or
else the raw bytes. The text tells the bytes but for this: where it shows an escape, the string may
have the byte or its spelling (`text_tells_bytes`). For a backslash and two digits that stand in the
string themselves look no different from an escape (`text_ambiguous`).
-/

namespace WordMachine.Command

open Text Activity

variable {c d : List Word}

/-! ### The text of a string -/

private theorem toList_escapedString (characters : List Word) :
    (escapedString characters).toList = escapedText (stringBytes characters) := by
  rw [escapedString, String.toList_join, List.flatMap_map, escapedText]

/-- Strings have the same text exactly if their bytes are spelled alike. -/
private theorem escapedString_eq_iff :
    escapedString c = escapedString d ↔ SpelledAlike (stringBytes c) (stringBytes d) := by
  rw [← String.toList_inj, toList_escapedString, toList_escapedString, escapedText_eq_iff]

namespace Session

variable {options options' : StringOptions} {s s' t t' : Session}

/-! ### Finding and showing a string -/

/-- The character words of the string that `read-string` prints. -/
def findString (options : StringOptions) : Activity (List Word) := do
  let symbols ← readSymbols options.symbols
  let image ← readImage options.image
  let address ← orFail .location (symbols.resolve options.location.toList)
  orFail .image (image.stringAt address options.indirect)

/-- What `read-string` prints of a string. -/
def stringShown (raw : Bool) (characters : List Word) : List UInt8 :=
  if raw then stringBytes characters else utf8 (escapedString characters ++ "\n")

private theorem stringShown_eq_iff :
    stringShown false c = stringShown false d ↔ SpelledAlike (stringBytes c) (stringBytes d) := by
  rw [stringShown, stringShown, if_neg (by decide), if_neg (by decide), utf8_injective.eq_iff,
    String.append_left_inj, escapedString_eq_iff]

/-- A string is found before it is shown. -/
private theorem readString_eq (options : StringOptions) :
    readString options = findString options >>= fun characters =>
      print (stringShown options.raw characters) := by
  simp only [readString, findString, bind_assoc, stringShown, apply_ite]

private theorem readString_of_findString {found : Session}
    (h : findString options s = .ok c found) : readString options s =
      .ok () { found with output := found.output ++ stringShown options.raw c } := by
  rw [readString_eq, bind_of_ok h]
  rfl

private theorem isSilent_findString (options : StringOptions) : IsSilent (findString options) :=
  (isSilent_readSymbols _).bind fun _ => (isSilent_readImage _).bind fun _ =>
    (isSilent_orFail _ _).bind fun _ => isSilent_orFail _ _

/-- What is printed is a string that was found, and could be shown the other way as well. -/
private theorem exists_of_readString (h : readString options s = .ok () t) :
    ∃ characters, t.output = s.output ++ stringShown options.raw characters ∧
      ∀ raw, ∃ r, readString { options with raw := raw } s = .ok () r ∧
        r.output = s.output ++ stringShown raw characters := by
  rw [readString_eq] at h
  obtain ⟨characters, found, hfind, hprint⟩ := exists_of_bind_ok h
  have houtput := isSilent_findString options hfind
  cases hprint
  refine ⟨characters, congrArg (· ++ _) houtput, fun raw => ?_⟩
  -- Where the string is found does not depend on how it is shown.
  have hfind' : findString { options with raw := raw } s = .ok characters found := hfind
  exact ⟨_, readString_of_findString hfind', congrArg (· ++ _) houtput⟩

/-! ### The main result -/

/-- **The text of a string tells its bytes, up to escapes that are spelled out.** Two strings have
the same text if and only if their bytes are spelled alike: they are the same byte for byte, but
where one of them has a byte that is not printable the other may have a backslash and the two
hexadecimal digits of that byte. So the text tells the bytes of strings that spell out nothing.

Hence when `read-string` succeeds twice without being asked for raw bytes, it succeeds as well when
it is asked for them, and it has printed the same text both times if and only if the raw bytes
are spelled alike. -/
theorem text_tells_bytes :
    (∀ c d : List Word,
      escapedString c = escapedString d ↔ SpelledAlike (stringBytes c) (stringBytes d)) ∧
      (∀ c d : List Word, ¬SpellsOut (stringBytes c) → ¬SpellsOut (stringBytes d) →
        escapedString c = escapedString d → stringBytes c = stringBytes d) ∧
      ∀ (options options' : StringOptions) (s s' t t' : Session),
        options.raw = false → options'.raw = false → s.output = s'.output →
        readString options s = .ok () t → readString options' s' = .ok () t' →
        ∃ bytes bytes' r r',
          readString { options with raw := true } s = .ok () r ∧ r.output = s.output ++ bytes ∧
          readString { options' with raw := true } s' = .ok () r' ∧
            r'.output = s'.output ++ bytes' ∧
          (t.output = t'.output ↔ SpelledAlike bytes bytes') ∧
          (¬SpellsOut bytes → ¬SpellsOut bytes' → t.output = t'.output → bytes = bytes') := by
  refine ⟨fun c d => escapedString_eq_iff, fun c d hc hd h => ?_, ?_⟩
  · exact (escapedString_eq_iff.mp h).eq hc hd
  · intro options options' s s' t t' hraw hraw' hs hread hread'
    obtain ⟨c, ht, hc⟩ := exists_of_readString hread
    obtain ⟨d, ht', hd⟩ := exists_of_readString hread'
    obtain ⟨r, hr, houtput⟩ := hc true
    obtain ⟨r', hr', houtput'⟩ := hd true
    have hiff : t.output = t'.output ↔ SpelledAlike (stringBytes c) (stringBytes d) := by
      rw [ht, ht', hraw, hraw', hs, List.append_right_inj, stringShown_eq_iff]
    exact ⟨_, _, r, r', hr, houtput, hr', houtput', hiff,
      fun hbytes hbytes' heq => (hiff.mp heq).eq hbytes hbytes'⟩

/-- A line feed has the same text as a backslash, a zero and an `a`. -/
theorem text_ambiguous :
    ¬∀ c d : List Word, escapedString c = escapedString d → stringBytes c = stringBytes d := by
  intro h
  have hbytes : stringBytes [10] = stringBytes [92, 48, 97] := h _ _ (by decide)
  exact absurd hbytes (by decide)

/-- An image with a string at address 0, and its text as a string at address 2. -/
def ambiguousImage : List Word := [1, 10, 3, 92, 48, 97]

/-- A session with this image in the file `p`. -/
def ambiguousSession : Session where
  folder := ⟨[(["p"], ambiguousImage.flatMap Image.bytesOfWord)], fun path => .file [path]⟩
  input := .ofBytes []

/-- Shows a string of the file `p`. -/
def stringOptionsAt (location : String) : StringOptions := ⟨"p", location, none, false, false⟩

theorem text_tells_bytes_line_feed :
    stringBytes [72, 105] = stringBytes [328, 105] ∧
      ∃ t t' r r', readString (stringOptionsAt "0") ambiguousSession = .ok () t ∧
        readString (stringOptionsAt "2") ambiguousSession = .ok () t' ∧
        readString { stringOptionsAt "0" with raw := true } ambiguousSession = .ok () r ∧
        readString { stringOptionsAt "2" with raw := true } ambiguousSession = .ok () r' ∧
        t.output = t'.output ∧ SpelledAlike r.output r'.output := by
  obtain ⟨-, hplain, hread⟩ := text_tells_bytes
  refine ⟨hplain _ _ (not_spellsOut_of_notMem (by decide)) (not_spellsOut_of_notMem (by decide))
    (by decide), ?_⟩
  have hfind : findString (stringOptionsAt "0") ambiguousSession = .ok [10] ambiguousSession := rfl
  have hfind' : findString (stringOptionsAt "2") ambiguousSession =
      .ok [92, 48, 97] ambiguousSession := rfl
  have hshow := readString_of_findString hfind
  have hshow' := readString_of_findString hfind'
  obtain ⟨bytes, bytes', r, r', hr, houtput, hr', houtput', halike, -⟩ :=
    hread _ _ _ _ _ _ rfl rfl rfl hshow hshow'
  have hsame : stringShown false [10] = stringShown false [92, 48, 97] :=
    stringShown_eq_iff.mpr (.right (b := 10) (by decide) .nil)
  refine ⟨_, _, r, r', hshow, hshow', hr, hr', hsame, ?_⟩
  rw [houtput, houtput']
  exact halike.mp hsame

end Session

end WordMachine.Command
