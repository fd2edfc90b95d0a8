import WordMachine.Diagnostic
import WordMachine.Symbol
import WordMachine.Text.WordCharacter

/-!
# Symbol files

A symbol file has one symbol on a line: `name first` or `name first-last`, then perhaps a comment
behind `#`. Blank lines and lines that start with `#` are skipped. Addresses are written in ASCII
digits.
-/

namespace WordMachine

open Text

/-- The three fields of a line: the name and the digits of both addresses. -/
structure SymbolLine where
  name : List Char
  /-- The digits of the first address. -/
  first : List Char
  /-- The digits of the last address, if there is one. -/
  last : Option (List Char)
  deriving DecidableEq, Repr

namespace SymbolLine

/-- Nothing, or a comment with any blanks before it. -/
def isTrailer (text : List Char) : Bool :=
  text.isEmpty || (text.dropWhile isBlank).head? = some '#'

/-- The addresses at the end of a line, and perhaps a comment. -/
def addresses? (text : List Char) : Option (List Char × Option (List Char)) :=
  let first := text.takeWhile Char.isDigit
  if first.isEmpty then none
  else
    match text.dropWhile Char.isDigit with
    | '-' :: rest =>
      let last := rest.takeWhile Char.isDigit
      if !last.isEmpty && isTrailer (rest.dropWhile Char.isDigit) then some (first, some last)
      else none
    | rest => if isTrailer rest then some (first, none) else none

/-- The fields of a trimmed line. -/
def ofLine? (line : List Char) : Option SymbolLine :=
  let name := line.takeWhile isWordCharacter
  let rest := line.dropWhile isWordCharacter
  if !name.isEmpty && rest.head?.any isBlank then
    (addresses? (rest.dropWhile isBlank)).map fun (first, last) => ⟨name, first, last⟩
  else none

end SymbolLine

/-- Why a line of a symbol file is refused. -/
inductive SymbolLineError
  /-- The line does not have the fields of a symbol. -/
  | malformed
  /-- The digits are not those of a word. -/
  | badNumber (digits : String)
  /-- The table does not take the symbol. -/
  | rejected (error : SymbolError)
  deriving DecidableEq, Repr

namespace SymbolLineError

/-- The wording of the error, without the line number. -/
def message : SymbolLineError → String
  | malformed => "Could not parse symbol table entry"
  | badNumber digits => "Invalid address `" ++ digits ++ "`"
  | rejected error => error.message

/-- The kind of fault. -/
def kind : SymbolLineError → Diagnostic.Kind
  | malformed =>
    ⟨"symtab::malformed", "entries look like `name start[-end] [# comment]`", "malformed entry"⟩
  | badNumber _ => ⟨"symtab::bad_number", "addresses range from 0 to 32,767", "invalid address"⟩
  | rejected _ =>
    ⟨"symtab::rejected", "symbol names must be unique and ranges must not overlap",
      "rejected entry"⟩

end SymbolLineError

namespace SymbolTable

/-- The address that digits stand for. -/
def readAddress (digits : List Char) : Except SymbolLineError Word :=
  match decimalWord? digits with
  | some address => .ok address
  | none => .error (.badNumber (String.ofList digits))

/-- Whether a trimmed line holds no symbol. -/
def isSkipped (line : List Char) : Bool := line.isEmpty || line.head? = some '#'

/-- Adds the symbol of a trimmed line. -/
def addLine (table : SymbolTable) (line : List Char) : Except SymbolLineError SymbolTable :=
  if isSkipped line then .ok table
  else
    match SymbolLine.ofLine? line with
    | none => .error .malformed
    | some fields => do
      let first ← readAddress fields.first
      let last ← readAddress (fields.last.getD fields.first)
      match table.add (String.ofList fields.name) first last with
      | .ok table => return table
      | .error e => throw (.rejected e)

/-- The table that a symbol file describes. -/
def ofText (text : List Char) : Except (AtLine SymbolLineError) SymbolTable :=
  readLines addLine empty text

/-- The diagnostic for a failure in a symbol file. -/
def diagnostic (origin : String) (text : List Char) (error : AtLine SymbolLineError) :
    Diagnostic :=
  .atLine origin text error.line error.cause.kind error.cause.message

end SymbolTable

end WordMachine
