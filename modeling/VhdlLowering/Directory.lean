/-!
# Directories

The program sees its files through a directory: a path leads to a text, to a file that is no text,
or to a directory. Paths are relative; a point stands for the same directory, two points for the one
above.
-/

namespace VhdlLowering

/-- What a path leads to. -/
inductive Entry where
  | text (content : String)
  /-- A file whose bytes are no text in UTF-8. -/
  | binary
  | directory
deriving DecidableEq, Repr

structure Directory where
  find? : String → Option Entry

namespace Directory

/-- The text at a path. -/
def read? (d : Directory) (path : String) : Option String :=
  match d.find? path with
  | some (.text content) => some content
  | _ => none

/-- Whether a path leads to a file. -/
def isFile (d : Directory) (path : String) : Bool :=
  match d.find? path with
  | some (.text _) | some .binary => true
  | some .directory | none => false

/-- The path of a name in a directory. -/
def join (dir name : String) : String :=
  if dir.isEmpty ∨ dir.endsWith "/" then dir ++ name else dir ++ "/" ++ name

/-- Walks along the parts of a path, innermost directory first. A part that is no directory can only
be the last. -/
def walk (files : List (String × Entry)) (here : List String) :
    List String → Option Entry
  | [] => if here.isEmpty then some .directory else files.lookup (pathOf here)
  | part :: parts =>
    if here.isEmpty ∨ files.lookup (pathOf here) = some .directory then
      if part = "" ∨ part = "." then walk files here parts
      else if part = ".." then
        match here with
        | [] => none
        | _ :: above => walk files above parts
      else walk files (part :: here) parts
    else none
where
  pathOf (here : List String) : String := String.intercalate "/" here.reverse

/-- A directory with the given files, by their paths. -/
def ofFiles (files : List (String × Entry)) : Directory where
  find? path :=
    if path.isEmpty ∨ path.startsWith "/" then none else walk files [] (path.splitOn "/")

end Directory

end VhdlLowering
