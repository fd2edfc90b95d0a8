import WordMachine.Memory
import WordMachine.Text.Pieces

/-!
# Memory overrides

A list such as `5489=21,5490=21` replaces words of memory. Its pieces stand between commas and empty
pieces are skipped. Overrides apply in order up to the first piece that is refused, and those before
it stay.
-/

namespace WordMachine

open Text

/-- Why a piece of an override list is refused. Each cause carries the piece at fault. -/
inductive OverrideError
  /-- There is no equals sign. -/
  | noValue (piece : String)
  | badAddress (address piece : String)
  | badValue (value piece : String)
  | outside (error : AddressOutside) (piece : String)
  deriving DecidableEq, Repr

/-- The wording of an override error. -/
def OverrideError.message : OverrideError → String
  | noValue piece => "Bad pair `" ++ piece ++ "`, expected `addr=val`"
  | badAddress address piece => "Bad address `" ++ address ++ "` in pair `" ++ piece ++ "`"
  | badValue value piece => "Bad value `" ++ value ++ "` in pair `" ++ piece ++ "`"
  | outside error piece => error.message ++ " in pair `" ++ piece ++ "`"

namespace Memory

/-- The address and the value of one override. -/
def readOverride (piece : List Char) : Except OverrideError (Word × Word) :=
  match cutAt? '=' piece with
  | none => .error (.noValue (String.ofList piece))
  | some (address, value) =>
    match decimalWord? (trim address), decimalWord? (trim value) with
    | none, _ => .error (.badAddress (String.ofList address) (String.ofList piece))
    | some _, none => .error (.badValue (String.ofList value) (String.ofList piece))
    | some a, some v =>
      if Holds a then .ok (a, v) else .error (.outside ⟨a⟩ (String.ofList piece))

/-- The pieces of an override list that are not empty. -/
def overridePieces (list : List Char) : List (List Char) :=
  (pieces ',' list).filter fun piece => !piece.isEmpty

/-- Applies pieces in order until one is refused. -/
def overrideEach (memory : Memory) : List (List Char) → Memory × Except OverrideError Unit
  | [] => (memory, .ok ())
  | piece :: rest =>
    match readOverride piece with
    | .ok (address, value) => (memory.put address value).overrideEach rest
    | .error e => (memory, .error e)

/-- Applies an override list. -/
def override (memory : Memory) (list : List Char) : Memory × Except OverrideError Unit :=
  memory.overrideEach (overridePieces list)

end Memory

end WordMachine
