import PlZero.Source.Folder

/-!
# Source files

How a path becomes a source text. Only files with the extension of the language
are taken, which is judged by the path before anything is opened. The content
must be UTF-8 and is kept as it is, byte order mark included.
-/

namespace PlZero.Source

set_option autoImplicit false

def wantedExtension : String := "pl0"

def checkPath (path : String) : Except Fault Unit :=
  if Path.extension? path = some wantedExtension then .ok ()
  else .error (.refusedFile "File must have a .pl0 extension")

def decode (bytes : ByteArray) : Except Fault String :=
  match String.fromUTF8? bytes with
  | some text => .ok text
  | none => .error (.file .notUtf8)

def ofEntry : Except FileFault Entry → Except Fault String
  | .error cause => .error (.file cause)
  | .ok .folder => .error (.file .isADirectory)
  | .ok (.file bytes) => decode bytes

def read (folder : Folder) (path : String) : Except Fault String := do
  checkPath path
  ofEntry (folder.find path)

end PlZero.Source
