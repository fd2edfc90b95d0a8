import WordMachine.Machine

/-!
# Reading the journal

Views of a machine's journal: the bytes it wrote, the flushes it tried, the lines it traced and the
keys it took. What a screen shows is the bytes written with the echo of the keys between them.
-/

namespace WordMachine

open Text

namespace Event

/-- The byte that was written. -/
def written? : Event → Option UInt8
  | wrote b => some b
  | _ => none

/-- The line that was traced. -/
def line? : Event → Option String
  | traced line => some line
  | _ => none

/-- The key that was taken. -/
def key? : Event → Option Key
  | pressed key => some key
  | _ => none

/-- Whether a flush was tried. -/
def isFlush : Event → Bool
  | flushed _ => true
  | _ => false

/-- The bytes that show on the screen: those written and the echo of keys. -/
def shown : Event → List UInt8
  | wrote b => [b]
  | pressed key => utf8 (String.ofList key.character?.toList)
  | _ => []

end Event

namespace Machine

/-- The bytes written to the output. -/
def written (m : Machine) : List UInt8 := m.journal.toList.filterMap Event.written?

/-- The number of flushes tried on the output. -/
def flushCount (m : Machine) : Nat := m.journal.toList.countP Event.isFlush

/-- The lines traced. -/
def traceLines (m : Machine) : List String := m.journal.toList.filterMap Event.line?

/-- The trace as a text of whole lines. -/
def traceText (m : Machine) : String := String.join (m.traceLines.map (· ++ "\n"))

/-- The bytes on the screen: those written, with the echo of the keys between them. -/
def screen (m : Machine) : List UInt8 := m.journal.toList.flatMap Event.shown

end Machine

end WordMachine
