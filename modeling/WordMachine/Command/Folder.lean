import WordMachine.Text.Pieces

/-!
# Files by path

A **path** is a text in which slashes divide names. It is followed name by name from a folder: the
empty name and `.` stay where they are, `..` goes back, and any other name goes on. Only folders
can be followed further, so `a/` and `a/.` lead nowhere if `a` is a file. A path that begins with a
slash leads to a **special file** of the system.

* `Place.ofPath` says where a path leads.
* `Folder.read?` and `Folder.write?` read and write the file there.
-/

namespace WordMachine.Command

open Text

/-! ### Places -/

/-- A file of the system that keeps nothing of what is written to it. -/
inductive SpecialFile
  /-- Is empty and takes everything. -/
  | null
  /-- Never ends and takes everything. -/
  | zero
  /-- Never ends and takes nothing. -/
  | full
  | standardInput
  | standardOutput
  | standardError
  deriving DecidableEq, Repr

/-- The names that lead to special files. -/
def SpecialFile.all : List (List String × SpecialFile) :=
  [(["dev", "null"], .null), (["dev", "zero"], .zero), (["dev", "full"], .full),
   (["dev", "stdin"], .standardInput), (["dev", "stdout"], .standardOutput),
   (["dev", "stderr"], .standardError)]

/-- What a path leads to. -/
inductive Place
  /-- A file, which may be there already or not. -/
  | file (names : List String)
  | special (file : SpecialFile)
  /-- A folder, or nothing at all. -/
  | nowhere
  deriving DecidableEq, Repr

namespace Place

/-- The number of bytes that a name may have. -/
def nameLimit : Nat := 255

/-- The number of bytes that a path may have. -/
def pathLimit : Nat := 4095

/-- The names of a path. -/
def namesOf (path : String) : List String := (pieces '/' path.toList).map String.ofList

/-- Whether names lead to a folder: they lead nowhere yet, or the names of a file go on from
there. -/
def isFolder (files : List (List String)) (here : List String) : Bool :=
  here.isEmpty || files.any fun names => here.isPrefixOf names && here.length < names.length

/-- Follows names from a folder. Gives the names that lead to the file at the end. -/
def follow (files : List (List String)) (here : List String) : List String → Option (List String)
  | [] => if isFolder files here then none else some here
  | name :: rest =>
    if !isFolder files here then none
    else if name = "" ∨ name = "." then follow files here rest
    else if name = ".." then if here.isEmpty then none else follow files here.dropLast rest
    else if name.utf8ByteSize ≤ nameLimit then follow files (here ++ [name]) rest
    else none

/-- Where a path leads from the folder that holds the given files. -/
def ofPath (files : List (List String)) (path : String) : Place :=
  if pathLimit < path.utf8ByteSize then nowhere
  else
    match namesOf path with
    | "" :: names =>
      match follow (SpecialFile.all.map (·.1)) [] names with
      | some names => (SpecialFile.all.lookup names).elim nowhere special
      | none => nowhere
    | names => (follow files [] names).elim nowhere file

end Place

/-! ### Folders -/

/-- Files, each with the names that lead to it. -/
structure Folder where
  files : List (List String × List UInt8)
  /-- Where paths lead. -/
  leadsTo : String → Place

namespace Folder

/-- The folder that holds files with the given paths. -/
def ofFiles (files : List (String × List UInt8)) : Folder :=
  let named := files.map fun (path, bytes) =>
    ((Place.namesOf path).filter fun name => name ≠ "" ∧ name ≠ ".", bytes)
  ⟨named, Place.ofPath (named.map (·.1))⟩

/-- The bytes of the file at a path. -/
def read? (folder : Folder) (path : String) : Option (List UInt8) :=
  match folder.leadsTo path with
  | .file names => folder.files.lookup names
  | .special .null => some []
  | .special _ | .nowhere => none

/-- The folder with the file at a path written anew. -/
def write? (folder : Folder) (path : String) (bytes : List UInt8) : Option Folder :=
  match folder.leadsTo path with
  | .file names =>
    some { folder with files := (names, bytes) :: folder.files.filter (·.1 ≠ names) }
  | .special .null | .special .zero => some folder
  | .special .full => if bytes = [] then some folder else none
  | .special _ | .nowhere => none

theorem read?_write? {folder written : Folder} {path : String} {names : List String}
    {bytes : List UInt8} (place : folder.leadsTo path = .file names)
    (h : folder.write? path bytes = some written) : written.read? path = some bytes := by
  simp only [write?, place, Option.some.injEq] at h
  subst h
  simp [read?, place]

end Folder

end WordMachine.Command
