import WordMachine.Annotation
import WordMachine.Diagnostic
import WordMachine.Symbol.Location

/-!
# Annotation files

A line of an annotation file is blank, or a **comment** `// text`, or a **place** with an optional
remark behind `//`. A place is an address, a range of two addresses, or the name of a symbol with an
optional offset; a bare name stands for the whole range of the symbol. The comments below a place
are the lines of its annotation. Each address may start one annotation.
-/

namespace WordMachine

open Text

/-- A stretch of addresses in writing. -/
inductive Place
  /-- The digits of an address, and those of the last address of a range. -/
  | addresses (first : List Char) (last : Option (List Char))
  /-- The name of a symbol, and the digits of an offset. -/
  | symbol (name : List Char) (offset : Option (List Char))
  deriving DecidableEq, Repr

/-- A trimmed line of an annotation file. -/
inductive AnnotationLine
  | blank
  | comment (text : List Char)
  | place (place : Place) (remark : Option (List Char))
  deriving DecidableEq, Repr

namespace AnnotationLine

/-- The text of a comment, which starts with `//` and is not blank. -/
def commentText? (text : List Char) : Option (List Char) :=
  match after? ['/', '/'] text with
  | none => none
  | some rest =>
    let body := rest.dropWhile isBlank
    if body.isEmpty then none else some body

/-- What follows a place: nothing, or blanks and a comment. -/
def remarkAtEnd? : List Char → Option (Option (List Char))
  | [] => some none
  | c :: rest =>
    if isBlank c then (commentText? (rest.dropWhile isBlank)).map some else none

/-- A line that starts with one or two addresses. -/
def addressLine? (line : List Char) : Option AnnotationLine :=
  let first := line.takeWhile isDecimalDigit
  if first.isEmpty then none
  else
    match line.dropWhile isDecimalDigit with
    | '-' :: rest =>
      let last := rest.takeWhile isDecimalDigit
      if last.isEmpty then none
      else (remarkAtEnd? (rest.dropWhile isDecimalDigit)).map (place (.addresses first (some last)))
    | rest => (remarkAtEnd? rest).map (place (.addresses first none))

/-- A line that starts with the name of a symbol. -/
def symbolLine? (line : List Char) : Option AnnotationLine :=
  let name := line.takeWhile isWordCharacter
  if name.isEmpty then none
  else
    match line.dropWhile isWordCharacter with
    | '+' :: rest =>
      let offset := rest.takeWhile isDecimalDigit
      if offset.isEmpty then none
      else (remarkAtEnd? (rest.dropWhile isDecimalDigit)).map (place (.symbol name (some offset)))
    | rest => (remarkAtEnd? rest).map (place (.symbol name none))

/-- What a trimmed line says. A line that can be read as addresses is not read as a name. -/
def ofLine? (line : List Char) : Option AnnotationLine :=
  if line.isEmpty then some blank
  else
    match commentText? line with
    | some text => some (comment text)
    | none =>
      match addressLine? line with
      | some found => some found
      | none => symbolLine? line

end AnnotationLine

/-- Why a place denotes no addresses. -/
inductive PlaceError
  /-- The digits are not those of an address in memory. -/
  | outside (digits : String)
  | invertedRange (first last : Word)
  | unknownSymbol (name : String)
  /-- The offset leads out of the symbol's range. -/
  | beyondSymbol (offset name : String)
  deriving DecidableEq, Repr

/-- The wording of a place error. -/
def PlaceError.message : PlaceError → String
  | outside digits => "Address " ++ digits ++ " is outside of memory"
  | invertedRange first last =>
    "Range " ++ first.text ++ "-" ++ last.text ++ " ends before it starts"
  | unknownSymbol name => "Unknown symbol `" ++ name ++ "`"
  | beyondSymbol offset name => "Offset " ++ offset ++ " extends beyond `" ++ name ++ "`"

namespace Place

/-- The address in memory that digits stand for. -/
def readAddress (digits : List Char) : Except PlaceError Word :=
  match (decimalWord? digits).filter (·.toNat < memorySize) with
  | some address => .ok address
  | none => .error (.outside (String.ofList digits))

/-- The first and the last address of a place. -/
def resolve (symbols : SymbolTable) : Place → Except PlaceError (Word × Word)
  | addresses first last => do
    let firstAddress ← readAddress first
    let lastAddress ←
      match last with
      | some digits => readAddress digits
      | none => pure firstAddress
    if lastAddress < firstAddress then throw (.invertedRange firstAddress lastAddress)
    else return (firstAddress, lastAddress)
  | symbol name offset =>
    match symbols.lookupName? (String.ofList name), offset with
    | none, _ => throw (.unknownSymbol (String.ofList name))
    | some entry, none => return (entry.first, entry.last)
    | some entry, some digits =>
      match (decimalWord? digits).bind entry.addressAt? with
      | some address => return (address, address)
      | none => throw (.beyondSymbol (String.ofList digits) (String.ofList name))

end Place

/-- Why a line of an annotation file is refused. -/
inductive AnnotationLineError
  /-- The line is neither a comment nor a place. -/
  | malformed
  | badPlace (error : PlaceError)
  /-- Another annotation starts at this address. -/
  | duplicateStart (address : Word)
  /-- A comment comes before the first place. -/
  | orphanComment
  deriving DecidableEq, Repr

namespace AnnotationLineError

/-- The wording of the error, without the line number. -/
def message : AnnotationLineError → String
  | malformed => "Could not parse annotation line"
  | badPlace error => error.message
  | duplicateStart address => "Duplicate start address " ++ address.text
  | orphanComment => "Comment line outside of any block"

/-- The kind of fault. -/
def kind : AnnotationLineError → Diagnostic.Kind
  | malformed =>
    ⟨"annotation::malformed",
      "lines are `addr[-end] [// text]`, `name[+off] [// text]` or `// text`", "malformed line"⟩
  | badPlace _ =>
    ⟨"annotation::location",
      "names must exist in the symbol table and offsets must stay within the entry",
      "invalid location"⟩
  | duplicateStart _ =>
    ⟨"annotation::duplicate", "each address may only open one annotation", "duplicate start"⟩
  | orphanComment =>
    ⟨"annotation::orphan", "a `//` line must follow an address, range or symbol line",
      "no open block"⟩

end AnnotationLineError

namespace Annotations

/-- Takes a trimmed line into annotations whose latest is the first of `found`. -/
def addLine (symbols : SymbolTable) (found : List Annotation) (line : List Char) :
    Except AnnotationLineError (List Annotation) :=
  match AnnotationLine.ofLine? line with
  | none => .error .malformed
  | some .blank => .ok found
  | some (.comment text) =>
    match found with
    | [] => .error .orphanComment
    | latest :: earlier =>
      .ok ({ latest with lines := latest.lines ++ [String.ofList text] } :: earlier)
  | some (.place place remark) =>
    match place.resolve symbols with
    | .error e => .error (.badPlace e)
    | .ok (first, last) =>
      if found.any (·.first = first) then .error (.duplicateStart first)
      else .ok (⟨first, last, remark.map String.ofList, []⟩ :: found)

/-- The annotations that a file describes. -/
def ofText (symbols : SymbolTable) (text : List Char) :
    Except (AtLine AnnotationLineError) Annotations :=
  (readLines (addLine symbols) [] text).map fun found => ⟨found.reverse⟩

/-- The diagnostic for a failure in an annotation file. -/
def diagnostic (origin : String) (text : List Char) (error : AtLine AnnotationLineError) :
    Diagnostic :=
  .atLine origin text error.line error.cause.kind error.cause.message

end Annotations

end WordMachine
