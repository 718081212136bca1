import PlZero.Diagnostic
import PlZero.Source.Path

/-!
# Folders

A folder with at most one entry, enough to say what opening a path relative to
it finds. Two paths that lead to the same place find the same thing, so the
entry is kept under its place and not under the path it was made with. Every
component but the last one must lead through a folder, and so must the last one
when the path ends in a slash. Nothing else is known to lie around the folder.
-/

namespace PlZero

set_option autoImplicit false

inductive Entry where
  | file (bytes : ByteArray)
  | folder

/-- The names that lead to a place from the folder. Steps out of the folder stand
in front as `..`, and a place counted from the top of all files begins with `/`. -/
abbrev Place := List String

namespace Place

def isAround (place : Place) : Bool :=
  place == ["/"] || place.all fun component => component == ".."

def parent (place : Place) : Place :=
  if place == ["/"] then place
  else if isAround place then place ++ [".."]
  else place.dropLast

def after (place : Place) (component : String) : Place :=
  if component == "" || component == "." then place
  else if component == ".." then parent place
  else place ++ [component]

def start (path : String) : Place :=
  if path.toList.head? == some '/' then ["/"] else []

def ofPath (path : String) : Place :=
  (Path.components path).foldl after (start path)

end Place

structure Folder where
  /-- The place and the content of the only entry. -/
  entry? : Option (Place × Entry)

namespace Folder

def empty : Folder := ⟨none⟩

def holding (path : String) (entry : Entry) : Folder := ⟨some (Place.ofPath path, entry)⟩

def maxNameBytes : Nat := 255

def maxPathBytes : Nat := 4095

def entryAt? (folder : Folder) (place : Place) : Option Entry :=
  match folder.entry? with
  | some (location, entry) => if place == location then some entry else none
  | none => none

/-- Whether names can be looked up at a place: the folder itself and what is
around it, an entry that is a folder, and whatever leads to the entry. -/
def isFolderAt (folder : Folder) (place : Place) : Bool :=
  match folder.entryAt? place with
  | some (.file _) => false
  | some .folder => true
  | none =>
    Place.isAround place || folder.entry?.any fun held => place.isPrefixOf held.1

def step (folder : Folder) (place : Place) (component : String) : Except FileFault Place :=
  let next := Place.after place component
  if !folder.isFolderAt place then .error .notADirectory
  else if component.utf8ByteSize > maxNameBytes then .error .nameTooLong
  else if folder.isFolderAt next || (folder.entryAt? next).isSome then .ok next
  else .error .notFound

def find (folder : Folder) (path : String) : Except FileFault Entry := do
  if path.toList.contains '\x00' then throw .nameHoldsNul
  if path.utf8ByteSize > maxPathBytes then throw .nameTooLong
  if path == "" then throw .notFound
  let place ← (Path.components path).foldlM folder.step (Place.start path)
  return (folder.entryAt? place).getD .folder

end Folder

end PlZero
