/-!
# Events of a terminal

What happens at a terminal is told as **events**. Most of them are about a key: it is pressed, goes
on being held, or is released, and other keys may be held together with it. `TerminalEvent.ofTyped`
tells what is typed as such events. A key that shows is its character, Enter is a carriage return,
and control characters are typed with Control and a letter. Keys without a character, and keys held
together with Alt, are sequences that start with an escape character.
-/

namespace WordMachine

/-- What happens to a key. -/
inductive KeyEvent.Kind
  | press
  /-- The key goes on being held. -/
  | hold
  | release
  deriving DecidableEq, Repr

/-- A key, without those that are held together with it. -/
inductive KeyEvent.Code
  | character (c : Char)
  | enter
  /-- A key without a character. -/
  | other
  deriving DecidableEq, Repr

/-- The keys that are held together with another one. -/
structure KeyEvent.Modifiers where
  shift : Bool := false
  control : Bool := false
  alt : Bool := false
  /-- Whether any further key of this kind is held. -/
  other : Bool := false
  deriving DecidableEq, Repr

/-- An event that is about a key. -/
structure KeyEvent where
  code : KeyEvent.Code
  modifiers : KeyEvent.Modifiers := {}
  kind : KeyEvent.Kind := .press
  deriving DecidableEq, Repr

/-- An event of a terminal. -/
inductive TerminalEvent
  | key (event : KeyEvent)
  /-- An event about something else, such as the mouse. -/
  | other
  deriving DecidableEq, Repr

namespace KeyEvent

/-- A character is typed together with Control alone. -/
def withControl (c : Char) : KeyEvent := { code := .character c, modifiers := { control := true } }

/-- The same key, held together with Alt. -/
def withAlt (event : KeyEvent) : KeyEvent :=
  { event with modifiers := { event.modifiers with alt := true } }

/-- The event of a character that is typed outside of any sequence. -/
def ofCharacter (c : Char) : KeyEvent :=
  if c = '\r' then { code := .enter }
  else if c = '\t' ∨ c = '\x1b' ∨ c = '\x7f' then { code := .other }
  else if c = '\x00' then withControl ' '
  else if c.toNat ≤ 0x1A then withControl (Char.ofNat (0x60 + c.toNat))
  else if c.toNat ≤ 0x1F then withControl (Char.ofNat (0x18 + c.toNat))
  else { code := .character c, modifiers := { shift := c.isUpper } }

end KeyEvent

namespace TerminalEvent

/-- Whether a character ends a sequence that starts with an escape and a bracket. -/
def endsSequence (c : Char) : Bool := 0x40 ≤ c.toNat && c.toNat ≤ 0x7E

/-- What is left after a sequence that starts with an escape and a bracket. -/
def afterSequence (typed : List Char) : List Char :=
  (typed.dropWhile fun c => !endsSequence c).drop 1

private theorem length_afterSequence_le (typed : List Char) :
    (afterSequence typed).length ≤ typed.length := by
  have := (List.dropWhile_suffix (fun c => !endsSequence c) (l := typed)).length_le
  simp only [afterSequence, List.length_drop]
  omega

/-- The events of the given characters. Sequences with a bracket tell of keys without a character,
of keys that are released, of the mouse and of the window. They are not told apart, since nothing
depends on them. -/
def ofTyped : List Char → List TerminalEvent
  | [] => []
  | '\x1b' :: '[' :: rest => other :: ofTyped (afterSequence rest)
  | '\x1b' :: 'O' :: _ :: rest => key { code := .other } :: ofTyped rest
  | '\x1b' :: '\x1b' :: rest => key { code := .other } :: ofTyped rest
  | '\x1b' :: c :: rest => key (KeyEvent.ofCharacter c).withAlt :: ofTyped rest
  | c :: rest => key (KeyEvent.ofCharacter c) :: ofTyped rest
termination_by typed => typed.length
decreasing_by
  all_goals
    simp only [List.length_cons]
    try have := length_afterSequence_le rest
    omega

end TerminalEvent

end WordMachine
