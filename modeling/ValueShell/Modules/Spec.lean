import ValueShell.Files
import ValueShell.Value

/-!
# Module specifiers

How a script names a module.  A specifier that starts with `./`, `../` or `/` is a path to a file,
starting from the directory of the code that uses it; any other is looked for in the library
directories.  Either way the extension of script files is added.
-/

set_option autoImplicit false

namespace ValueShell

namespace Modules

/-- The extension of script files. -/
def extension : String := "qb"

/-- Does the specifier name a file by its path? -/
def isPath (spec : String) : Bool :=
  match spec.toList with
  | '.' :: '/' :: _ => true
  | '.' :: '.' :: '/' :: _ => true
  | '/' :: _ => true
  | _ => false

/-- The paths a specifier may mean, in the order they are tried.  Without a base they start from the
working directory. -/
def candidates (spec : String) (base : Option String) (libDirs : List String) (ext : String) :
    List String :=
  let file := s!"{spec}.{ext}"
  if isPath spec then [joinPath (base.getD "") file] else libDirs.map (joinPath · file)

/-- The place of the module a specifier means: the first candidate that is a file. -/
def resolve (files : FileTree) (spec : String) (base : Option String) (libDirs : List String)
    (ext : String) : Except Reason FilePath :=
  match ((candidates spec base libDirs ext).filter files.isFile).findSome? files.canonical? with
  | some place => .ok place
  | none => .error (.noSuchModule spec)

end Modules

end ValueShell
