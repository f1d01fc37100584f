/-!
# Files of a directory

The program reads at most two files, so all it needs of a file system is a function from paths to
contents.  A directory given as data answers such questions without a file system: paths are relative
to the directory, `.` stands for where one is and `..` leads one level up, but never out of the
directory.
-/

namespace AliasCatalog.CommandLine

/-- The contents of the file at a path; `none` where there is no file that can be read. -/
abbrev FileSource := String → Option ByteArray

/-- The text of a file; `none` also where the contents are no UTF-8. -/
def FileSource.text? (source : FileSource) (path : String) : Option String :=
  (source path).bind String.fromUTF8?

/-- A directory: the files in it and below, and the folders below, each under its place, the names
on the way to it.  Of two files at one place the first counts. -/
structure Directory where
  files : List (List String × ByteArray)
  folders : List (List String)

namespace Directory

/-- The parts of a path between its slashes. -/
def parts (path : String) : List String :=
  (path.toList.splitOn '/').map String.ofList

/-- The place that a part of a path leads to from a place; `none` outside the directory. -/
def step? (here : List String) (part : String) : Option (List String) :=
  if part == "" || part == "." then some here
  else if part == ".." then
    if here.isEmpty then none else some here.dropLast
  else some (here ++ [part])

/-- The places on a way, one after each part; `none` if it leads out of the directory. -/
def way? (here : List String) : List String → Option (List (List String))
  | [] => some []
  | part :: rest => do
    let there ← step? here part
    let later ← way? there rest
    return there :: later

/-- Adds a file and the folders on the way to it; a file that was there before is replaced. -/
def add (directory : Directory) (path : String) (contents : ByteArray) : Directory :=
  match way? [] (parts path) with
  | some way =>
    ⟨(way.getLast?.getD [], contents) :: directory.files, way.dropLast ++ directory.folders⟩
  | none => directory

/-- A directory with files at the given paths, added one after the other. -/
def ofFiles (files : List (String × ByteArray)) : Directory :=
  files.foldl (fun directory (path, contents) => directory.add path contents) ⟨[], []⟩

/-- Is there a folder at a place? -/
def isFolder (directory : Directory) (place : List String) : Bool :=
  place.isEmpty || directory.folders.contains place

/-- Follows the parts of a path from a folder; a file ends the way. -/
def follow (directory : Directory) : (here parts : List String) → Option ByteArray
  | _, [] => none
  | here, part :: rest =>
    match step? here part with
    | none => none
    | some there =>
      if directory.isFolder there then follow directory there rest
      else if rest.isEmpty then directory.files.lookup there
      else none

/-- The directory as a source of files; absolute paths lead out of it. -/
def source (directory : Directory) : FileSource :=
  fun path => if path.startsWith "/" then none else directory.follow [] (parts path)

end Directory

end AliasCatalog.CommandLine
