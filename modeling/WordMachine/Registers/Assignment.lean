import WordMachine.Registers
import WordMachine.Text.DecimalDigit
import WordMachine.Text.Pieces

/-!
# Register assignments

A list such as `r1=5, R7=3` gives registers their first contents. Its pieces stand between commas;
blanks around a piece do not count, and blank pieces are skipped. Later pieces win.
-/

namespace WordMachine

open Text

/-- Why a list of assignments is refused. Each cause carries the piece at fault. -/
inductive AssignmentError
  /-- The piece is not of the form `r` digits `=` digits. -/
  | malformed (piece : String)
  /-- The register number cannot be read. -/
  | badNumber (piece : String)
  /-- There is no register of that number. -/
  | noSuchRegister (number : Nat) (piece : String)
  /-- The value cannot be read as a word. -/
  | badValue (piece : String)
  deriving DecidableEq, Repr

/-- The wording of an assignment error. -/
def AssignmentError.message : AssignmentError → String
  | malformed piece => "Failed to parse register assignment `" ++ piece ++ "`"
  | badNumber piece => "Bad register number in `" ++ piece ++ "`"
  | noSuchRegister number piece =>
    "Illegal register number " ++ decimal number ++ " in `" ++ piece ++ "`"
  | badValue piece => "Bad register value in `" ++ piece ++ "`"

namespace RegisterFile

/-- One or more decimal digits of any script. -/
def isDigitRun (text : List Char) : Bool := !text.isEmpty && text.all isDecimalDigit

/-- The digits on both sides of the equals sign of an assignment. -/
def assignmentParts? : List Char → Option (List Char × List Char)
  | [] => none
  | letter :: rest =>
    if letter = 'r' ∨ letter = 'R' then
      (cutAt? '=' rest).filter fun (number, value) => isDigitRun number && isDigitRun value
    else none

/-- A register number, below 2 to the 64. -/
def registerNumber? (digits : List Char) : Option Nat :=
  (digits? 10 decimalValue? digits).filter (· < UInt64.size)

/-- The register number and the value of one assignment. -/
def readAssignment (piece : List Char) : Except AssignmentError (Nat × Word) :=
  match assignmentParts? piece with
  | none => .error (.malformed (String.ofList piece))
  | some (number, value) =>
    match registerNumber? number with
    | none => .error (.badNumber (String.ofList piece))
    | some n =>
      if 8 ≤ n then .error (.noSuchRegister n (String.ofList piece))
      else
        match decimalWord? value with
        | none => .error (.badValue (String.ofList piece))
        | some w => .ok (n, w)

/-- The pieces of an assignment list that are not blank, trimmed. -/
def assignmentPieces (list : List Char) : List (List Char) :=
  ((pieces ',' list).map trim).filter fun piece => !piece.isEmpty

/-- The register file that an assignment list describes; registers not named hold zero. -/
def ofAssignments (list : List Char) : Except AssignmentError RegisterFile :=
  (assignmentPieces list).foldlM
    (fun file piece => do
      let (n, value) ← readAssignment piece
      return file.set n value)
    zero

end RegisterFile

end WordMachine
