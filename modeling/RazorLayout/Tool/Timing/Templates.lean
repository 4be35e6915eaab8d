import RazorLayout.Tool.FileTree

/-!
# Templates to be timed

The templates below a directory, in the order of their names, or in an archive, in its own order.
-/

namespace RazorLayout

/-- A template with its name. -/
structure Template where
  name : Text
  text : Text
  deriving DecidableEq, Repr

namespace Template

/-- The endings of template names. -/
def endings : List Text :=
  [".razor".toList, ".cshtml".toList]

/-- The ending of a file name: from its last dot on, unless that is its first or last character. -/
def ending (name : Text) : Text :=
  let back := name.reverse
  match back.dropWhile fun c => c != '.' with
  | _ :: _ :: _ =>
      let letters := back.takeWhile fun c => c != '.'
      if letters.isEmpty then [] else '.' :: letters.reverse
  | _ => []

/-- Whether a file in a directory is a template. -/
def isTemplateFile (file : File) : Bool :=
  endings.contains (ending (file.parts.getLast?.getD []))

/-- Whether a member of an archive is a template. -/
def isTemplateMember (member : ArchiveMember) : Bool :=
  member.isFile && endings.any fun e => e.isSuffixOf member.name

/-- The first items of a list; a negative number leaves out that many at the end, and zero sets no
limit. -/
def limited {α : Type} (limit : Int) (xs : List α) : List α :=
  match limit with
  | .ofNat 0 => xs
  | .ofNat n => xs.take n
  | .negSucc n => xs.take (xs.length - (n + 1))

/-- The complaint about a place that is no directory. -/
def notDirectory (path : PathName) : Text :=
  "ERROR: not a directory: ".toList ++ path.text

/-- The templates below a directory, or the complaint that there is none. -/
def fromDirectory (w : Workspace) (path : PathName) (limit : Int) :
    Except Text (List Template) :=
  if w.tree.isDirectory path then
    let files := (w.tree.below path).filter isTemplateFile
    pure ((limited limit files).map fun f =>
      ⟨Text.joinWith ['/'] f.parts, unifyLineEnds (Utf8.decode f.octets)⟩)
  else throw (notDirectory path)

/-- The templates of an archive, or the complaint that there is none.  No template is wanted below a
negative limit. -/
def fromArchive (w : Workspace) (path : PathName) (limit : Int) : Except Text (List Template) :=
  match w.archive? path with
  | some archive =>
      let members := archive.members.filter isTemplateMember
      let wanted := if limit = 0 then members else members.take limit.toNat
      pure (wanted.map fun m => ⟨m.name, Utf8.decode m.octets⟩)
  | none => throw ("ERROR: archive not found: ".toList ++ path.text)

end Template

end RazorLayout
