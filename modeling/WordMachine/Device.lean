import WordMachine.Opcode

/-!
# Devices

A device may fail at any single request. Its **reliability** says which of the requests made to it,
counted from zero, it honours. An output takes bytes and flushes them; an input stream hands out its
bytes one by one and then ends.
-/

namespace WordMachine

/-- Which requests, counted from zero, a device honours. -/
abbrev Reliability := Nat → Bool

namespace Reliability

/-- Every request is honoured. -/
def always : Reliability := fun _ => true

/-- No request is honoured. -/
def never : Reliability := fun _ => false

/-- The first `n` requests are honoured. -/
def first (n : Nat) : Reliability := fun k => k < n

end Reliability

/-- A request that a device did not honour. -/
inductive DeviceError
  | writeFailed
  | flushFailed
  | readFailed
  deriving DecidableEq, Repr

/-- The wording of a device error. -/
def DeviceError.message : DeviceError → String
  | writeFailed => "write failed"
  | flushFailed => "flush failed"
  | readFailed => "read failed"

/-- A device that takes bytes. -/
structure Output where
  /-- Which of the bytes offered are taken. -/
  takes : Reliability := .always
  /-- Which of the flushes succeed. -/
  flushes : Reliability := .always
  /-- How many bytes have been offered. -/
  offered : Nat := 0
  /-- How many flushes have been tried. -/
  flushed : Nat := 0

namespace Output

/-- An output that takes `limit` bytes in all, or any number of them. -/
def limited (limit : Option Nat) : Output where
  takes := limit.elim .always .first

/-- Offers one byte. The result tells whether it was taken. -/
def offer (output : Output) : Bool × Output :=
  (output.takes output.offered, { output with offered := output.offered + 1 })

/-- Tries to flush. The result tells whether that succeeded. -/
def flush (output : Output) : Bool × Output :=
  (output.flushes output.flushed, { output with flushed := output.flushed + 1 })

/-- Offers bytes until one is not taken. Gives the bytes taken, added to `written`. -/
def offerAll (output : Output) (written : Array UInt8) :
    List UInt8 → Except DeviceError Unit × Array UInt8 × Output
  | [] => (.ok (), written, output)
  | b :: rest =>
    match output.offer with
    | (true, output) => output.offerAll (written.push b) rest
    | (false, output) => (.error .writeFailed, written, output)

end Output

/-- Bytes that are read one by one. -/
structure InputStream where
  /-- The bytes not read yet. -/
  unread : List UInt8
  /-- Which of the requests for a byte are honoured. -/
  honours : Reliability := .always
  /-- How many bytes have been requested. -/
  requested : Nat := 0

end WordMachine
