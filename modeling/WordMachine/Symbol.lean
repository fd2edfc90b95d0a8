import WordMachine.Opcode
import WordMachine.Symbol.Partition

/-!
# Symbols

A **symbol** names an inclusive range of addresses. A `SymbolTable` keeps its symbols as they were
added, and beside them their places in the order of their first addresses. Ranges never meet, so the
one symbol that can hold an address is the last of those that start at or below it. `rank` counts
these by bisection, and both insertion and lookup look only at the symbols next to that rank.
-/

namespace WordMachine

open Text

/-- A named, inclusive range of addresses. -/
structure SymbolEntry where
  name : String
  /-- The first address. -/
  first : Word
  /-- The last address. -/
  last : Word
  deriving DecidableEq, Repr

namespace SymbolEntry

/-- Whether an address lies in the range. -/
def contains (entry : SymbolEntry) (address : Word) : Bool :=
  entry.first ≤ address && address ≤ entry.last

/-- Whether the range has an address in common with another. -/
def meets (entry : SymbolEntry) (first last : Word) : Bool :=
  entry.first ≤ last && first ≤ entry.last

/-- The name, and behind a plus sign the offset unless that is zero. -/
def offsetName (entry : SymbolEntry) (offset : Word) : String :=
  if offset = 0 then entry.name else entry.name ++ "+" ++ offset.text

end SymbolEntry

/-- Why a symbol is refused. -/
inductive SymbolError
  | duplicateName (name : String)
  /-- The last address is below the first. -/
  | invertedRange (name : String) (first last : Word)
  | overlap (name other : String)
  /-- The last address lies outside of memory. -/
  | addressOutOfRange (name : String) (address : Word)
  deriving DecidableEq, Repr

/-- The wording of a symbol error. -/
def SymbolError.message : SymbolError → String
  | duplicateName name => "`" ++ name ++ "` already exists in table"
  | invertedRange name first last =>
    "Range of `" ++ name ++ "` ends before it starts (" ++ first.text ++ "-" ++ last.text ++ ")"
  | overlap name other => "Range of `" ++ name ++ "` overlaps with `" ++ other ++ "`"
  | addressOutOfRange name address =>
    "Address " ++ address.text ++ " of `" ++ name ++ "` is outside of memory"

/-- Symbols, and the order of their first addresses. -/
structure SymbolTable where
  /-- The symbols in the order in which they were added. -/
  added : Array SymbolEntry
  /-- The places of the symbols in `added`, in the order of their first addresses. -/
  byFirst : Array Nat
  deriving DecidableEq, Repr

namespace SymbolTable

/-- The table without symbols. -/
def empty : SymbolTable := ⟨#[], #[]⟩

/-- The number of symbols. -/
def size (table : SymbolTable) : Nat := table.added.size

/-- The symbol at a place in the order of first addresses. -/
def entryAt? (table : SymbolTable) (rank : Nat) : Option SymbolEntry :=
  table.byFirst[rank]?.bind (table.added[·]?)

/-- The symbols in the order of their first addresses. -/
def entries (table : SymbolTable) : Array SymbolEntry :=
  table.byFirst.filterMap (table.added[·]?)

/-- The number of symbols that start at or below an address. -/
def rank (table : SymbolTable) (address : Word) : Nat :=
  partitionPoint table.byFirst fun place => table.added[place]?.any (·.first ≤ address)

/-- The last of the first `rank` symbols. -/
def before? (table : SymbolTable) (rank : Nat) : Option SymbolEntry :=
  if rank = 0 then none else table.entryAt? (rank - 1)

/-- The symbol with the given name. -/
def lookupName? (table : SymbolTable) (name : String) : Option SymbolEntry :=
  table.added.find? (·.name = name)

/-- The symbol that holds an address, and the offset of the address in it. -/
def lookupAddress? (table : SymbolTable) (address : Word) : Option (SymbolEntry × Word) :=
  match table.before? (table.rank address) with
  | some entry =>
    if entry.contains address then some (entry, address - entry.first) else none
  | none => none

/-- The symbol of the table, next to `rank`, that has an address in common with a range. The one
before that place is asked first. -/
def conflict? (table : SymbolTable) (rank : Nat) (first last : Word) : Option SymbolEntry :=
  ((table.before? rank).toList ++ (table.entryAt? rank).toList).find? (·.meets first last)

/-- The table with one more symbol. -/
def add (table : SymbolTable) (name : String) (first last : Word) :
    Except SymbolError SymbolTable :=
  if (table.lookupName? name).isSome then .error (.duplicateName name)
  else if last < first then .error (.invertedRange name first last)
  else if memorySize ≤ last.toNat then .error (.addressOutOfRange name last)
  else
    let rank := table.rank first
    match table.conflict? rank first last with
    | some other => .error (.overlap name other.name)
    | none =>
      .ok ⟨table.added.push ⟨name, first, last⟩,
        table.byFirst.insertIdxIfInBounds rank table.added.size⟩

/-- The name of an address, or its decimal numeral if no symbol holds it. -/
def addressName (table : SymbolTable) (address : Word) : String :=
  match table.lookupAddress? address with
  | some (entry, offset) => entry.offsetName offset
  | none => address.text

end SymbolTable

end WordMachine
