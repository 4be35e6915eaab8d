import RazorLayout.Text.Utf8

/-!
# Files

The files that a tool can see: a tree of named files below the working directory, and archives of
named members.
-/

namespace RazorLayout

/-- The name of a place in the file system. -/
structure PathName where
  /-- Whether the name starts at the root of the file system. -/
  absolute : Bool
  parts : List Text
  deriving DecidableEq, Repr

namespace PathName

/-- The place that a text names; empty parts and single dots say nothing. -/
def ofText (cs : Text) : PathName where
  absolute := Text.startsWith ['/'] cs
  parts := (List.splitOn '/' cs).filter fun part => !part.isEmpty && part != ['.']

/-- The name as it is printed. -/
def text (p : PathName) : Text :=
  let joined := Text.joinWith ['/'] p.parts
  if p.absolute then '/' :: joined else if joined.isEmpty then ['.'] else joined

/-- The parts with every step up to a parent directory taken. -/
def resolve (parts : List Text) : List Text :=
  parts.foldl (fun above part => if part = ['.', '.'] then above.dropLast else above ++ [part]) []

end PathName

/-- A file with its octets. -/
structure File where
  parts : List Text
  octets : List Nat
  deriving DecidableEq, Repr

/-- The files below the working directory. -/
structure FileTree where
  files : List File := []
  /-- Directories that need no file in them. -/
  directories : List (List Text) := []
  deriving DecidableEq, Repr

namespace FileTree

/-- Writes a file, in place of one with the same name. -/
def write (t : FileTree) (file : File) : FileTree :=
  { t with files := t.files.filter (fun f => f.parts != file.parts) ++ [file] }

/-- Makes a directory. -/
def makeDirectory (t : FileTree) (parts : List Text) : FileTree :=
  { t with directories := t.directories ++ [parts] }

/-- The octets of the file at a place. -/
def read? (t : FileTree) (path : PathName) : Option (List Nat) :=
  if path.absolute then none
  else (t.files.find? fun f => f.parts == PathName.resolve path.parts).map File.octets

/-- Whether a place is a directory. -/
def isDirectory (t : FileTree) (path : PathName) : Bool :=
  let place := PathName.resolve path.parts
  !path.absolute &&
    (place.isEmpty || t.directories.any (fun d => place.isPrefixOf d) ||
      t.files.any fun f => place.isPrefixOf f.parts && decide (place.length < f.parts.length))

/-- The files below a directory, with the part of their names below it, in the order of those
names. -/
def below (t : FileTree) (path : PathName) : List File :=
  let place := PathName.resolve path.parts
  let inside := t.files.filter fun f =>
    place.isPrefixOf f.parts && decide (place.length < f.parts.length)
  (inside.map fun f => { f with parts := f.parts.drop place.length }).mergeSort
    fun a b => !decide (b.parts < a.parts)

end FileTree

/-- A member of an archive. -/
structure ArchiveMember where
  name : Text
  /-- Whether it is a regular file. -/
  isFile : Bool
  octets : List Nat
  deriving DecidableEq, Repr

/-- An archive with its members in order. -/
structure Archive where
  path : PathName
  members : List ArchiveMember
  deriving DecidableEq, Repr

/-- Everything that a tool can read. -/
structure Workspace where
  tree : FileTree := {}
  archives : List Archive := []
  deriving DecidableEq, Repr

namespace Workspace

/-- The archive at a place. -/
def archive? (w : Workspace) (path : PathName) : Option Archive :=
  w.archives.find? fun a =>
    !path.absolute && PathName.resolve a.path.parts == PathName.resolve path.parts

end Workspace

end RazorLayout
