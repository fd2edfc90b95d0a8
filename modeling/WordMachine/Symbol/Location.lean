import WordMachine.Symbol
import WordMachine.Text.DecimalDigit
import WordMachine.Text.Pieces
import WordMachine.Text.WordCharacter

/-!
# Locations

A **location** is an address in writing: a decimal number, a hexadecimal number after `0x`, the
name of a symbol for its first address, or a name with an offset such as `print+2`. What reads as a
number is a number, also when a symbol has that name.
-/

namespace WordMachine

open Text

/-- Why a text does not denote an address. -/
inductive LocationError
  | notALocation (text : String)
  | unknownSymbol (name : String)
  | badOffset (text : String)
  /-- The offset leads out of the symbol's range. -/
  | beyondSymbol (text name : String)
  deriving DecidableEq, Repr

/-- The wording of a location error. -/
def LocationError.message : LocationError → String
  | notALocation text => "`" ++ text ++ "` is neither an address nor a symbol"
  | unknownSymbol name => "Unknown symbol `" ++ name ++ "`"
  | badOffset text => "Bad offset in `" ++ text ++ "`"
  | beyondSymbol text name => "Offset in `" ++ text ++ "` extends beyond `" ++ name ++ "`"

/-- The number that a text reads as: hexadecimal after `0x` or `0X`, decimal otherwise. -/
def addressNumber? (text : List Char) : Option Word :=
  match text with
  | '0' :: 'x' :: digits => hexadecimalWord? digits
  | '0' :: 'X' :: digits => hexadecimalWord? digits
  | digits => decimalWord? digits

/-- A name, and the digits of the offset behind a plus sign if there is one. The whole text is used
up. -/
def nameWithOffset? (text : List Char) : Option (List Char × Option (List Char)) :=
  let name := text.takeWhile isWordCharacter
  if name.isEmpty then none
  else
    match text.dropWhile isWordCharacter with
    | [] => some (name, none)
    | '+' :: offset =>
      if !offset.isEmpty && offset.all isDecimalDigit then some (name, some offset) else none
    | _ => none

namespace SymbolEntry

/-- The address at an offset from the first, as long as it lies in the range. -/
def addressAt? (entry : SymbolEntry) (offset : Word) : Option Word :=
  if entry.first.toNat + offset.toNat ≤ entry.last.toNat then some (entry.first + offset) else none

end SymbolEntry

namespace SymbolTable

/-- The address that a name with an optional offset denotes. -/
def resolveName (table : SymbolTable) (text : List Char) : Except LocationError Word :=
  match nameWithOffset? text with
  | none => .error (.notALocation (String.ofList text))
  | some (name, offset) =>
    match table.lookupName? (String.ofList name), offset with
    | none, _ => .error (.unknownSymbol (String.ofList name))
    | some entry, none => .ok entry.first
    | some entry, some digits =>
      match decimalWord? digits with
      | none => .error (.badOffset (String.ofList text))
      | some offset =>
        match entry.addressAt? offset with
        | some address => .ok address
        | none => .error (.beyondSymbol (String.ofList text) (String.ofList name))

/-- The address that a location denotes; blanks around it do not count. -/
def resolve (table : SymbolTable) (location : List Char) : Except LocationError Word :=
  let text := trim location
  match addressNumber? text with
  | some address => .ok address
  | none => table.resolveName text

end SymbolTable

end WordMachine
