import WordMachine.Terminal.Key
import WordMachine.Text.Utf8

/-!
# Terminal input

A terminal hands out the bytes of the characters that are typed. A read takes keys until one of
them stands for a character, and gives as many of its bytes as were asked for; the others stay
**pending** for the next reads, which take no key before they are gone.
-/

namespace WordMachine

open Text

/-- A terminal: the keys that will be pressed, and the bytes left of a character that was read in
part. -/
structure Terminal where
  keys : List Key
  pending : List UInt8 := []
  deriving DecidableEq, Repr

/-- What a read from a terminal gives. -/
inductive Terminal.Answer
  | bytes (bytes : List UInt8)
  /-- The end of the input was signalled. -/
  | ended
  /-- The program was told to end. -/
  | interrupted
  /-- There are no more keys. -/
  | waiting
  deriving DecidableEq, Repr

/-- A read from a terminal: its answer, the keys it took, and the terminal after it. -/
structure Terminal.Reading where
  answer : Terminal.Answer
  pressed : List Key
  rest : Terminal
  deriving DecidableEq, Repr

namespace Terminal

/-- Gives up to `size` pending bytes. -/
def handOut (size : Nat) (pending : List UInt8) (pressed keys : List Key) : Reading where
  answer := .bytes (pending.take size)
  pressed := pressed
  rest := ⟨keys, pending.drop size⟩

/-- Takes keys until one of them ends the read. The keys in `taken` were taken before, the latest
first. -/
def readKeys (size : Nat) (taken : List Key) : List Key → Reading
  | [] => ⟨.waiting, taken.reverse, ⟨[], []⟩⟩
  | key :: keys =>
    let pressed := key :: taken
    match key with
    | .character c => handOut size (utf8 c.toString) pressed.reverse keys
    | .enter => handOut size (utf8 "\n") pressed.reverse keys
    | .endOfInput => ⟨.ended, pressed.reverse, ⟨keys, []⟩⟩
    | .interrupt => ⟨.interrupted, pressed.reverse, ⟨keys, []⟩⟩
    | .toggleTrace | .ignored => readKeys size pressed keys

/-- Reads at most `size` bytes. -/
def read (terminal : Terminal) (size : Nat) : Reading :=
  if size = 0 then ⟨.bytes [], [], terminal⟩
  else if terminal.pending.isEmpty then readKeys size [] terminal.keys
  else handOut size terminal.pending [] terminal.keys

/-- The characters that show on the screen when keys are taken. -/
def echo (pressed : List Key) : List Char := pressed.filterMap Key.character?

/-- The bytes that are still to be read. -/
def unread (t : Terminal) : List UInt8 := t.pending ++ utf8 (String.ofList (echo t.keys))

/-- The state of the trace switch after each key that flips it. -/
def switched (tracing : Bool) : List Key → List Bool
  | [] => []
  | .toggleTrace :: keys => (!tracing) :: switched (!tracing) keys
  | _ :: keys => switched tracing keys

/-- The state of the trace switch after keys were taken. -/
def tracingAfter (tracing : Bool) (pressed : List Key) : Bool :=
  ((switched tracing pressed).getLast?).getD tracing

end Terminal

end WordMachine
