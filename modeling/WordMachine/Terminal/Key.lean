import WordMachine.Terminal.Event

/-!
# Keys

Of the events of a terminal the machine cares about those of some **keys**. A character counts when
it is typed alone or with Shift, Enter counts whatever is held together with it, and three letters
typed with Control are commands. No key counts when it is released (`Key.ofKeyEvent_of_release`).
What the characters on a keyboard mean in the end is `Key.ofKeyEvent_ofCharacter`.
-/

namespace WordMachine

/-- A key press, as far as the machine cares. -/
inductive Key
  | character (c : Char)
  | enter
  /-- No more input. -/
  | endOfInput
  /-- Switches tracing on or off. -/
  | toggleTrace
  /-- Ends the program. -/
  | interrupt
  | ignored
  deriving DecidableEq, Repr

namespace Key

/-- The character that a key stands for in the input. -/
def character? : Key → Option Char
  | character c => some c
  | enter => some '\n'
  | _ => none

/-- The command that a letter is, when it is typed with Control. -/
def command : Char → Key
  | 'c' => interrupt
  | 'd' => endOfInput
  | 't' => toggleTrace
  | _ => ignored

/-- What an event about a key counts as. -/
def ofKeyEvent (event : KeyEvent) : Key :=
  if event.kind = .release then ignored
  else
    match event.code with
    | .enter | .character '\n' => enter
    | .character c =>
      if event.modifiers = { control := true } then command c
      else if event.modifiers = {} ∨ event.modifiers = { shift := true } then character c
      else ignored
    | .other => ignored

/-- What an event counts as. -/
def ofEvent : TerminalEvent → Key
  | .key event => ofKeyEvent event
  | .other => ignored

/-- The keys that type the given characters. -/
def ofTyped (typed : List Char) : List Key := (TerminalEvent.ofTyped typed).map ofEvent

theorem ofKeyEvent_of_release {event : KeyEvent} (h : event.kind = .release) :
    ofKeyEvent event = ignored := if_pos h

/-- What a character counts as that is typed outside of any sequence. -/
theorem ofKeyEvent_ofCharacter (c : Char) :
    ofKeyEvent (.ofCharacter c) =
      if c = '\r' then enter
      else if c = '\x03' then interrupt
      else if c = '\x04' then endOfInput
      else if c = '\x14' then toggleTrace
      else if c.toNat < 0x20 ∨ c.toNat = 0x7F then ignored
      else character c := by
  by_cases hlow : c.toNat < 0x80
  · -- The characters of ASCII are gone through one by one.
    have hascii : ∀ n < 0x80, ofKeyEvent (.ofCharacter (Char.ofNat n)) =
        if Char.ofNat n = '\r' then enter
        else if Char.ofNat n = '\x03' then interrupt
        else if Char.ofNat n = '\x04' then endOfInput
        else if Char.ofNat n = '\x14' then toggleTrace
        else if (Char.ofNat n).toNat < 0x20 ∨ (Char.ofNat n).toNat = 0x7F then ignored
        else character (Char.ofNat n) := by decide +kernel
    simpa only [Char.ofNat_toNat] using hascii c.toNat hlow
  · have hne {d : Char} (hd : d.toNat < 0x80) : c ≠ d := by
      rintro rfl
      exact hlow hd
    have hcode : KeyEvent.ofCharacter c =
        { code := .character c, modifiers := { shift := c.isUpper } } := by
      have h1A : ¬c.toNat ≤ 0x1A := by omega
      have h1F : ¬c.toNat ≤ 0x1F := by omega
      simp [KeyEvent.ofCharacter, hne, h1A, h1F]
    have hvisible : ¬(c.toNat < 0x20 ∨ c.toNat = 0x7F) := by omega
    rw [hcode]
    cases hshift : c.isUpper <;> simp [ofKeyEvent, hne, hvisible]

end Key

end WordMachine
