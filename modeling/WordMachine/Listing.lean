import WordMachine.Annotation
import WordMachine.Device
import WordMachine.Instruction.Rendering
import WordMachine.Text.Column

/-!
# Listings

A **listing** shows the instructions of a word stream one after the other without running them. It
is a sequence of items: instructions, the comment lines above an instruction, and the empty line
after a commented range. The first stretch of words that is no instruction ends it.

`Listing.ofWords` finds the items, `Item.text` writes one, and `Listing.write` hands their text to
an output that may fail.
-/

namespace WordMachine

open Text

/-- A part of a listing. -/
inductive Listing.Item
  /-- The lines of an annotation that starts at the next instruction. -/
  | heading (block : Annotation)
  /-- An instruction, its position in the stream and its words. -/
  | instruction (position : Nat) (i : Instruction) (words : List Word)
  /-- The end of a commented range. -/
  | closing
  deriving DecidableEq, Repr

/-- The parts of a listing, and where and why it breaks off. -/
structure Listing where
  items : Array Listing.Item
  failure : Option (Word × DecodeError)
  deriving DecidableEq, Repr

/-- Why a listing is not complete. -/
inductive ListingError
  /-- The words at an address are no instruction. -/
  | badInstruction (address : Word) (error : DecodeError)
  | device (error : DeviceError)
  deriving DecidableEq, Repr

/-- The wording of a listing error. -/
def ListingError.message : ListingError → String
  | badInstruction address error =>
    "Bad instruction at " ++ address.text ++ ": " ++ error.message
  | device error => "I/O failure: " ++ error.message

namespace Listing

/-! ### Finding the items -/

/-- The address shown for a position, which counts modulo 65536. -/
def addressOf (position : Nat) : Word := UInt16.ofNat position

/-- The position at which a listing stops: `limit` words after `start`, or the end of the words. -/
def stop (words : Array Word) (start : Word) (limit : Option Nat) : Nat :=
  match limit with
  | some limit => min (start.toNat + limit) words.size
  | none => words.size

/-- Lists the instructions from `position` up to `stop` behind the items already found. `open?` is
the last address of the commented range that is being listed. -/
def extend (words : Array Word) (notes : Annotations) (stop position : Nat) (open? : Option Word)
    (items : Array Item) : Listing :=
  if position < stop then
    let address := addressOf position
    let block := notes.block? address
    let items := match block with
      | some note => items.push (.heading note)
      | none => items
    let open? := match block with
      | some note => some note.last
      | none => open?
    match Instruction.decode words position with
    | .error e => ⟨items, some (address, e)⟩
    | .ok (i, _) =>
      let next := position + i.length
      let items := items.push (.instruction position i (words.extract position next).toList)
      if open?.any (·.toNat < next) then extend words notes stop next none (items.push .closing)
      else extend words notes stop next open? items
  else ⟨items, none⟩
termination_by stop - position
decreasing_by
  all_goals
    have := i.length_pos
    omega

/-- The listing of a word stream from `start` on. -/
def ofWords (words : Array Word) (notes : Annotations) (start : Word) (limit : Option Nat) :
    Listing :=
  extend words notes (stop words start limit) start.toNat none #[]

/-! ### Writing the items -/

/-- How a listing is written. -/
structure Style where
  /-- The names of addresses. -/
  symbols : SymbolTable
  /-- The remarks on addresses. -/
  notes : Annotations
  /-- Whether the address and the words stand before each instruction. -/
  full : Bool

/-- The width of the column of address names. -/
def nameWidth : Nat := 30

/-- The width of the column of instructions that a remark follows. -/
def instructionWidth : Nat := 30

/-- The column at which instructions and comment lines start. -/
def Style.indent (style : Style) : Nat :=
  if style.full then nameWidth + 3 + (8 + 4 * 6 + 1) else nameWidth + 3

/-- The address and the words of an instruction; missing words leave their columns empty. -/
def rawText (address : Word) (words : List Word) : String :=
  alignRight 5 address.text ++ ":  " ++
    String.join (words.map fun w => alignRight 5 w.text ++ " ") ++
    spaces ((4 - words.length) * 6) ++ " "

/-- An instruction, and behind it the remark on its address. -/
def remarkedText (style : Style) (address : Word) (i : Instruction) : String :=
  let text := i.render style.symbols
  match style.notes.remark? address with
  | some remark => alignLeft instructionWidth text ++ "// " ++ remark
  | none => text

/-- The text of an item. -/
def Item.text (style : Style) : Item → String
  | heading block =>
    "\n" ++ String.join (block.lines.map fun line =>
      spaces style.indent ++ "// " ++ line ++ "\n")
  | instruction position i words =>
    let address := addressOf position
    alignRight nameWidth (style.symbols.addressName address) ++ ":  " ++
      (if style.full then rawText address words else "") ++
      remarkedText style address i ++ "\n"
  | closing => "\n"

/-- The text of a listing. -/
def text (style : Style) (listing : Listing) : String :=
  String.join (listing.items.toList.map (Item.text style))

/-- Why a listing breaks off, if the output takes all of it. -/
def result (listing : Listing) : Except ListingError Unit :=
  match listing.failure with
  | some (address, e) => .error (.badInstruction address e)
  | none => .ok ()

/-- Writes items one after the other until the output fails. -/
def writeItems (style : Style) (output : Output) (written : Array UInt8) :
    List Item → Except DeviceError Unit × Array UInt8
  | [] => (.ok (), written)
  | item :: rest =>
    match output.offerAll written (utf8 (item.text style)) with
    | (.ok (), written, output) => writeItems style output written rest
    | (.error e, written, _) => (.error e, written)

/-- Writes a listing. Gives the bytes that the output took, and why the listing is not complete. -/
def write (style : Style) (output : Output) (listing : Listing) :
    Except ListingError Unit × Array UInt8 :=
  match writeItems style output #[] listing.items.toList with
  | (.ok (), written) => (listing.result, written)
  | (.error e, written) => (.error (.device e), written)

end Listing

end WordMachine
