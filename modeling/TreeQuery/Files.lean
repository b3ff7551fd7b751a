/-! Files under a working directory, and what can go wrong when one is read as text. A path is
followed from left to right; every part before the last must be a directory. Nothing else
exists: outside the working directory no name is found. -/
namespace TreeQuery

inductive ReadFault where
  | notFound
  | notDirectory
  | isDirectory
  | nameTooLong
  | nulInPath
  | notUtf8
  /-- Any other fault of the system, in its own words. -/
  | system (message : String)
  deriving Repr,DecidableEq

namespace ReadFault

def message : ReadFault → String
  | .notFound => "No such file or directory (os error 2)"
  | .notDirectory => "Not a directory (os error 20)"
  | .isDirectory => "Is a directory (os error 21)"
  | .nameTooLong => "File name too long (os error 36)"
  | .nulInPath => "file name contained an unexpected NUL byte"
  | .notUtf8 => "stream did not contain valid UTF-8"
  | .system message => message

/-- The fault that the system reports by a code, with its words for it. -/
def ofCode (code : Nat) (words : String) : ReadFault :=
  match code with
  | 2 => .notFound
  | 20 => .notDirectory
  | 21 => .isDirectory
  | 36 => .nameTooLong
  | _ => .system (words ++ " (os error " ++ toString code ++ ")")

/-- A fault that has a code reports it, whichever it is. -/
theorem message_ofCode (code : Nat) (words : String) :
    ∃ front, (ofCode code words).message = front ++ " (os error " ++ toString code ++ ")" := by
  unfold ofCode
  split
  · exact ⟨"No such file or directory",rfl⟩
  · exact ⟨"Not a directory",rfl⟩
  · exact ⟨"Is a directory",rfl⟩
  · exact ⟨"File name too long",rfl⟩
  · exact ⟨words,rfl⟩

end ReadFault

inductive Entry where
  | file (bytes : ByteArray)
  | directory

/-- Entries by their path from the working directory; directories that entries lie in need no
entry of their own. -/
structure Files where
  entries : List (List String × Entry)

inductive Place where
  | inside (path : List String)
  | outside
  | file (bytes : ByteArray)

namespace Files

def parts (path : String) : List String := path.splitOn "/"

/-- Entries from names with slashes in them. -/
def ofList (entries : List (String × Entry)) : Files :=
  ⟨entries.map fun (name,entry) => ((parts name).filter fun part => part != "" && part != ".",entry)⟩

def find? (files : Files) (path : List String) : Option Place :=
  match files.entries.lookup path with
  | some (.file bytes) => some (.file bytes)
  | some .directory => some (.inside path)
  | none =>
    if files.entries.any fun entry => path.isPrefixOf entry.1 then some (.inside path) else none

/-- One step along a path. An empty part and `.` stay in the directory, `..` leaves it. -/
def step (files : Files) (place : Place) (part : String) : Except ReadFault Place :=
  match place with
  | .file _ => .error .notDirectory
  | .outside =>
    if part = "" ∨ part = "." ∨ part = ".." then .ok .outside
    else if 255 < part.utf8ByteSize then .error .nameTooLong
    else .error .notFound
  | .inside path =>
    if part = "" ∨ part = "." then .ok place
    else if part = ".." then .ok (if path.isEmpty then .outside else .inside path.dropLast)
    else if 255 < part.utf8ByteSize then .error .nameTooLong
    else match files.find? (path ++ [part]) with
      | some found => .ok found
      | none => .error .notFound

/-- The place a path leads to; a path that starts with a slash starts outside. -/
def resolve (files : Files) (path : String) : Except ReadFault Place :=
  if path.toList.contains '\x00' then .error .nulInPath
  else if path.isEmpty then .error .notFound
  else if 4096 ≤ path.utf8ByteSize then .error .nameTooLong
  else (parts path).foldlM files.step (if path.toList.head? = some '/' then .outside else .inside [])

def read (files : Files) (path : String) : Except ReadFault String := do
  match ← files.resolve path with
  | .file bytes =>
    match String.fromUTF8? bytes with
    | some text => .ok text
    | none => .error .notUtf8
  | _ => .error .isDirectory

end Files
end TreeQuery
