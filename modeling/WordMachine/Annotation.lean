import WordMachine.Opcode

/-!
# Annotations

An **annotation** comments on a range of addresses. It may carry a remark, which belongs on the line
of its first address, and lines of text, which belong above that line. `Annotations` holds them in
the order in which they were written; no two start at the same address.
-/

namespace WordMachine

/-- Commentary on an inclusive range of addresses. -/
structure Annotation where
  /-- The first address. -/
  first : Word
  /-- The last address. -/
  last : Word
  /-- The comment on the line of the first address. -/
  remark : Option String
  /-- The comment lines above the first address. -/
  lines : List String
  deriving DecidableEq, Repr

/-- Annotations in the order in which they were written. -/
structure Annotations where
  entries : List Annotation
  deriving DecidableEq, Repr

namespace Annotations

/-- No annotations. -/
def empty : Annotations := ⟨[]⟩

/-- The annotation that starts at an address. -/
def startingAt? (notes : Annotations) (address : Word) : Option Annotation :=
  notes.entries.find? (·.first = address)

/-- The remark on an address. -/
def remark? (notes : Annotations) (address : Word) : Option String :=
  (notes.startingAt? address).bind (·.remark)

/-- The annotation that starts at an address, if it has lines of text. -/
def block? (notes : Annotations) (address : Word) : Option Annotation :=
  (notes.startingAt? address).filter fun note => !note.lines.isEmpty

end Annotations

end WordMachine
