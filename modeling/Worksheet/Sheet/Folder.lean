/-!
A folder of files, as far as loading and saving need one.

File names are relative to the folder, and there are no folders inside it.
-/

namespace Worksheet

inductive FolderFault where
  | notFound
  | invalidData
deriving DecidableEq, Repr

structure Folder where
  files : List (String × ByteArray)

namespace Folder

def empty : Folder := ⟨[]⟩

def bytes? (folder : Folder) (name : String) : Option ByteArray :=
  folder.files.lookup name

def read (folder : Folder) (name : String) : Except FolderFault String :=
  match folder.bytes? name with
  | none => .error .notFound
  | some bytes =>
      match String.fromUTF8? bytes with
      | none => .error .invalidData
      | some text => .ok text

def put (folder : Folder) (name : String) (bytes : ByteArray) : Folder :=
  ⟨(name, bytes) :: folder.files.filter (·.1 ≠ name)⟩

/-- Writes a file, over an older one; a name inside another folder is refused. -/
def write (folder : Folder) (name : String) (bytes : ByteArray) : Except FolderFault Folder :=
  if '/' ∈ name.toList then .error .notFound else .ok (folder.put name bytes)

end Folder

end Worksheet
