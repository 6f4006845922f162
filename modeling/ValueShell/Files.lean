import ValueShell.Text.Utf8

/-!
# Files

The tree of files that scripts read, write and load modules from.  A `FilePath` is a place in it: the
names from the root down, with no links, `.` or `..` among them.  A path as a script writes it is text;
`FileTree.find` follows it one name at a time, through links, to the place it leads to.

Contents are kept apart from the tree under a number of their own, so that a file that is open stays the
same file whatever happens to its name.
-/

set_option autoImplicit false

namespace ValueShell

/-- A place in the tree: the names from the root down. -/
abbrev FilePath := List String

/-- The text of a place. -/
def FilePath.text (path : FilePath) : String :=
  "/" ++ "/".intercalate path

/-- Why a file cannot be used. -/
inductive FileFault where
  | notFound
  | notDirectory
  | isDirectory
  | nameTooLong
  | tooManyLinks
  | notText
  | nulInName
deriving DecidableEq, Repr

/-- The message for a fault. -/
def FileFault.message : FileFault → String
  | notFound => "No such file or directory (os error 2)"
  | notDirectory => "Not a directory (os error 20)"
  | isDirectory => "Is a directory (os error 21)"
  | nameTooLong => "File name too long (os error 36)"
  | tooManyLinks => "Too many levels of symbolic links (os error 40)"
  | notText => "stream did not contain valid UTF-8"
  | nulInName => "file name contained an unexpected NUL byte"

/-- What stands at a place. -/
inductive FileNode where
  | directory
  /-- A file, by the number of its contents -/
  | file (content : Nat)
  | link (target : String)
  /-- A file that is always empty -/
  | void
deriving DecidableEq, Repr

/-- The tree. -/
structure FileTree where
  nodes : List (FilePath × FileNode)
  contents : Array Bytes
  /-- Where paths start that do not start at the root -/
  here : FilePath

/-- A file open for writing. -/
structure FileHandle where
  /-- The contents it writes to; none for a file that is always empty -/
  content : Option Nat
  /-- Does every write go to the end? -/
  append : Bool
  position : Nat
deriving Repr

/-! ## Paths as text -/

/-- A text cut at every slash. -/
def cutSlashes : List Char → List (List Char)
  | [] => [[]]
  | c :: cs =>
    if c = '/' then [] :: cutSlashes cs
    else match cutSlashes cs with
      | first :: others => (c :: first) :: others
      | [] => [[c]]

/-- The names in a path, with an empty one for a slash at either end. -/
def pathNames (path : String) : List String :=
  (cutSlashes path.toList).map String.ofList

/-- Does the path start at the root? -/
def isAbsolute (path : String) : Bool :=
  path.toList.head? = some '/'

/-- A path that starts at `base` unless it starts at the root. -/
def joinPath (base path : String) : String :=
  if isAbsolute path || base.isEmpty then path
  else if base.toList.getLast? = some '/' then base ++ path
  else base ++ "/" ++ path

/-- The path of the directory that holds a file; none for a path without a name. -/
def parentPath (path : String) : Option String :=
  let names := (pathNames path).filter (· ≠ "")
  -- A dot counts for something only at the very front.
  let kept := if isAbsolute path then names.filter (· ≠ ".")
    else names.take 1 ++ (names.drop 1).filter (· ≠ ".")
  if kept.isEmpty then none
  else some ((if isAbsolute path then "/" else "") ++ "/".intercalate kept.dropLast)

namespace FileTree

/-- What stands at a place.  The root is a directory. -/
def node? (t : FileTree) (path : FilePath) : Option FileNode :=
  if path.isEmpty then some .directory else (t.nodes.find? (·.1 = path)).map (·.2)

/-- Where a path leads. -/
inductive Found where
  | node (path : FilePath) (n : FileNode)
  /-- Nothing has this name in a directory that is there -/
  | missing (directory : FilePath) (name : String)
deriving DecidableEq, Repr

/-- Is a name too long to be one? -/
def tooLong (name : String) : Bool :=
  255 < name.utf8ByteSize

/-- Does a path that goes on with these names end here, with a slash behind its last name? -/
def endsInSlash (names : List String) : Bool :=
  !names.isEmpty && names.all (· = "")

/-- Follows names from a place.  At a link `jump` goes on, with what the link leads to in front of the names that
are left.  When the path is followed in order to make a file (`making`), a slash behind the last name is a fault
whatever stands there, since it asks for a directory. -/
def walkNames (t : FileTree) (making : Bool) (jump : FilePath → List String → Except FileFault Found)
    (place : FilePath) : List String → Except FileFault Found
  | [] =>
    match t.node? place with
    | some n => .ok (.node place n)
    | none => .error .notFound
  | name :: names =>
    if t.node? place ≠ some .directory then .error .notDirectory
    else if name = "" ∨ name = "." then t.walkNames making jump place names
    else if name = ".." then t.walkNames making jump place.dropLast names
    else if making && endsInSlash names then .error .isDirectory
    else if tooLong name then .error .nameTooLong
    else match t.node? (place ++ [name]) with
      | none => if names.isEmpty then .ok (.missing place name) else .error .notFound
      | some (.link target) =>
        jump (if isAbsolute target then [] else place) (pathNames target ++ names)
      | some _ => t.walkNames making jump (place ++ [name]) names

/-- Follows names from a place, through at most `links` links. -/
def walk (t : FileTree) (making : Bool) (links : Nat) : FilePath → List String → Except FileFault Found :=
  match links with
  | 0 => t.walkNames making fun _ _ ↦ .error .tooManyLinks
  | links + 1 => t.walkNames making (t.walk making links)

/-- Where names lead from the root or from here. -/
def follow (t : FileTree) (making : Bool) (path : String) (names : List String) :
    Except FileFault Found :=
  if path.toList.contains '\x00' then .error .nulInName
  else if path.isEmpty then .error .notFound
  else if 4095 < path.utf8ByteSize then .error .nameTooLong
  else t.walk making 40 (if isAbsolute path then [] else t.here) names

/-- Where a path leads. -/
def find (t : FileTree) (path : String) : Except FileFault Found :=
  t.follow false path (pathNames path)

/-! ## Reading -/

/-- Is there a file at the end of the path? -/
def isFile (t : FileTree) (path : String) : Bool :=
  match t.find path with
  | .ok (.node _ (.file _)) => true
  | _ => false

/-- The place of what a path leads to. -/
def canonical? (t : FileTree) (path : String) : Option FilePath :=
  match t.find path with
  | .ok (.node place _) => some place
  | _ => none

/-- The bytes in a file. -/
def read (t : FileTree) (path : String) : Except FileFault Bytes :=
  match t.find path with
  | .error fault => .error fault
  | .ok (.missing _ _) => .error .notFound
  | .ok (.node _ (.file content)) => .ok (t.contents.getD content [])
  | .ok (.node _ .void) => .ok []
  | .ok (.node _ _) => .error .isDirectory

/-- The text in a file. -/
def readText (t : FileTree) (path : String) : Except FileFault String :=
  match t.read path with
  | .error fault => .error fault
  | .ok bytes =>
    match Utf8.decode? bytes with
    | some text => .ok text
    | none => .error .notText

/-! ## Writing -/

/-- The tree with a node put at a place. -/
def put (t : FileTree) (path : FilePath) (n : FileNode) : FileTree :=
  { t with nodes := t.nodes.filter (·.1 ≠ path) ++ [(path, n)] }

/-- The tree with a new file at a place, and the number of its contents. -/
def newFile (t : FileTree) (path : FilePath) : Nat × FileTree :=
  (t.contents.size, { t with contents := t.contents.push [] }.put path (.file t.contents.size))

/-- Opens a file for writing.  A file that is not there is made; one that is there is emptied unless
writing goes to its end. -/
def openForWriting (t : FileTree) (path : String) (append : Bool) :
    Except FileFault (FileHandle × FileTree) :=
  match t.follow true path (pathNames path) with
  | .error fault => .error fault
  | .ok (.missing directory name) =>
    let (content, t) := t.newFile (directory ++ [name])
    .ok (⟨some content, append, 0⟩, t)
  | .ok (.node _ (.file content)) =>
    .ok (⟨some content, append, 0⟩,
      if append then t else { t with contents := t.contents.setIfInBounds content [] })
  | .ok (.node _ .void) => .ok (⟨none, append, 0⟩, t)
  | .ok (.node _ _) => .error .isDirectory

/-- The bytes with others written over them from a position on. -/
def overwrite (old : Bytes) (position : Nat) (new : Bytes) : Bytes :=
  old.take position ++ List.replicate (position - old.length) 0 ++ new ++
    old.drop (position + new.length)

/-- Writes to an open file.  A write behind the end fills what lies between with zeros, but writing no
bytes changes nothing, wherever it would go. -/
def writeTo (t : FileTree) (h : FileHandle) (bytes : Bytes) : FileHandle × FileTree :=
  match h.content with
  | none => (h, t)
  | some content =>
    if bytes.isEmpty then (h, t)
    else
      let old := t.contents.getD content []
      let position := if h.append then old.length else h.position
      ({ h with position := position + bytes.length },
        { t with contents := t.contents.setIfInBounds content (overwrite old position bytes) })

/-! ## Setting up a tree -/

/-- The tree with directories along the names, from a place on, and the place they end at. -/
def makeDirectories (t : FileTree) (place : FilePath) : List String → FilePath × FileTree
  | [] => (place, t)
  | name :: names =>
    match t.walk false 40 place [name] with
    | .ok (.node place _) => t.makeDirectories place names
    | .ok (.missing directory name) =>
      (t.put (directory ++ [name]) .directory).makeDirectories (directory ++ [name]) names
    | .error _ => (place, t)

/-- What to put at a path. -/
inductive Entry where
  | directory
  | file (bytes : Bytes)
  | link (target : String)

/-- The tree with something put at a path; the directories on the way are made. -/
def install (t : FileTree) (path : String) (entry : Entry) : FileTree :=
  let start := if isAbsolute path then [] else t.here
  let names := pathNames path
  match entry with
  | .directory => (t.makeDirectories start names).2
  | .link target =>
    let (directory, t) := t.makeDirectories start names.dropLast
    t.put (directory ++ [names.getLastD ""]) (.link target)
  | .file bytes =>
    let (_, t) := t.makeDirectories start names.dropLast
    match t.openForWriting path false with
    | .ok (h, t) => (t.writeTo h bytes).2
    | .error _ => t

/-- The tree without the file or link a path names. -/
def remove (t : FileTree) (path : String) : FileTree :=
  let names := pathNames path
  match t.follow false path names.dropLast with
  | .ok (.node directory .directory) =>
    let place := directory ++ [names.getLastD ""]
    if t.node? place = some .directory then t
    else { t with nodes := t.nodes.filter (·.1 ≠ place) }
  | _ => t

/-- A tree in which nothing has been written yet, with the working directory `here`. -/
def fresh (here : FilePath) : FileTree :=
  { nodes :=
      ["bin", "dev", "etc", "home", "lib", "mnt", "opt", "proc", "root", "run", "sbin", "srv", "sys",
        "tmp", "usr", "var"].map (fun name ↦ ([name], FileNode.directory)) ++
      [(["dev", "null"], .void)] ++
      (List.range here.length).map (fun i ↦ (here.take (i + 1), FileNode.directory))
    contents := #[]
    here }

end FileTree

end ValueShell
