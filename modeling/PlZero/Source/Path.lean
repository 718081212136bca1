/-!
# Paths

The parts of a path that decide whether a file is taken for a source text. A
path falls into components between slashes; empty components and single dots
say nothing about the file. What stands after the last dot of a file name is its
extension, unless that dot is the first character of the name.
-/

namespace PlZero.Path

set_option autoImplicit false

def components (path : String) : List String := path.splitOn "/"

/-- The last component that names something. A step to the parent names nothing. -/
def fileName? (path : String) : Option String :=
  ((components path).filter fun component => component != "" && component != ".").getLast?.filter
    fun name => name != ".."

def extensionOf? (name : String) : Option String :=
  let backwards := name.toList.reverse
  match backwards.dropWhile (· != '.') with
  | [] => none
  | [_] => none
  | _ :: _ :: _ => some (String.ofList (backwards.takeWhile (· != '.')).reverse)

def extension? (path : String) : Option String :=
  (fileName? path).bind extensionOf?

end PlZero.Path
