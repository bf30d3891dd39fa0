import MockAudit.Error
import MockAudit.Files.Path

/-!
# Files

What a run sees of the file system: what is found under a path, and whether a file can be written
there. What is found need not be readable: a file may hold no text, and the names in a directory may
be withheld. A tree of files in memory, all of them readable, is one such view.
-/

namespace MockAudit

/-- What is found under a path. -/
inductive FileNode
  /-- A file with its text, if that can be read. -/
  | file (content : Except FileFault String)
  /-- A directory with the names in it, if they can be listed. -/
  | directory (names : Except FileFault (List String))
  /-- The path leads to nothing. -/
  | absent (fault : FileFault)

/-- A file to be written in place of what is there. -/
structure FileWrite where
  path : String
  content : String

/-- A view of the file system. -/
structure Files where
  look : String → FileNode
  /-- Why no file can be written under a path, if that is so. -/
  writeFault? : String → Option FileFault

namespace Files

/-- Reads a file. -/
def read (files : Files) (path : String) : Except FileFault String :=
  match files.look path with
  | .file content => content
  | .directory (.ok _) => .error .isDirectory
  | .directory (.error fault) | .absent fault => .error fault

/-- Prepares to write a file, if that can be done. -/
def write (files : Files) (path content : String) : Except FileFault FileWrite :=
  match files.writeFault? path with
  | some fault => .error fault
  | none => .ok ⟨path, content⟩

/-- Whether a path leads to a directory. -/
def isDirectory (files : Files) (path : String) : Bool :=
  match files.look path with
  | .directory _ => true
  | _ => false

/-- Whether a path leads to something, be it readable or not. -/
def exists? (files : Files) (path : String) : Bool :=
  match files.look path with
  | .absent _ => false
  | _ => true

end Files

/-- Files and directories in memory, each under the names on the way to it. -/
structure FileTree where
  files : List (List String × String)
  directories : List (List String)

namespace FileTree

/-- The tree with nothing but its root. -/
def empty : FileTree := ⟨[], []⟩

/-- The content of a file. -/
def content? (t : FileTree) (place : List String) : Option String :=
  (t.files.find? (·.1 == place)).map (·.2)

/-- Whether a place is a directory. -/
def isDirectory (t : FileTree) (place : List String) : Bool :=
  place.isEmpty || t.directories.contains place

/-- Walks along the parts of a path from a place. -/
def walk (t : FileTree) (place : List String) : List String → Except FileFault (List String)
  | [] => .ok place
  | part :: parts =>
    if (t.content? place).isSome then .error .notDirectory
    else if !t.isDirectory place then .error .notFound
    else if part = "" ∨ part = "." then t.walk place parts
    else if part = ".." then t.walk place.dropLast parts
    else t.walk (place ++ [part]) parts

/-- The place a path leads to, whether or not something is there. No absolute path leads into the
tree. -/
def placeOf (t : FileTree) (path : String) : Except FileFault (List String) :=
  if path.isEmpty || path.startsWith "/" then .error .notFound
  else t.walk [] ((Path.segments path.toList).map String.ofList)

/-- The names in a directory. -/
def names (t : FileTree) (place : List String) : List String :=
  ((t.files.map (·.1) ++ t.directories).filterMap fun p =>
    match p.getLast? with
    | some name => if p.dropLast = place then some name else none
    | none => none).eraseDups

/-- What is found under a path. -/
def look (t : FileTree) (path : String) : FileNode :=
  if path = "/" then .directory (.ok [])
  else
    match t.placeOf path with
    | .error fault => .absent fault
    | .ok place =>
      if t.isDirectory place then .directory (.ok (t.names place))
      else
        match t.content? place with
        | some content => .file (.ok content)
        | none => .absent .notFound

/-- Why no file can be written under a path, if that is so. -/
def writeFault? (t : FileTree) (path : String) : Option FileFault :=
  match t.placeOf path with
  | .error fault => some fault
  | .ok place => if t.isDirectory place then some .isDirectory else none

/-- The view of a tree. -/
def view (t : FileTree) : Files :=
  { look := t.look, writeFault? := t.writeFault? }

/-- Writes a file in place of the one that is there. -/
def write (t : FileTree) (w : FileWrite) : FileTree :=
  match t.placeOf w.path with
  | .ok place => { t with files := (place, w.content) :: t.files.filter (·.1 != place) }
  | .error _ => t

/-- Adds a directory with those around it. -/
def addDirectory (t : FileTree) (place : List String) : FileTree :=
  let around := (List.range (place.length + 1)).map place.take
  { t with directories := (t.directories ++ around.filter (!·.isEmpty)).eraseDups }

/-- The tree of the given files, with the directories around them. A path with a slash at its end
stands for a directory. -/
def ofList (entries : List (String × String)) : FileTree :=
  entries.foldl (fun t (path, content) =>
    let parts := ((Path.segments path.toList).filter (!·.isEmpty)).map String.ofList
    if path.endsWith "/" then t.addDirectory parts
    else (t.addDirectory parts.dropLast).write ⟨path, content⟩) empty

end FileTree

end MockAudit
