/-! Reading files by path, with the reasons for which that fails, and directories held in memory. -/
namespace DerivationReplay

inductive ReadFailure
  | missing
  | isDirectory
  | notDirectory
  | nameTooLong
  | nulInName
  | other (reason : String)
deriving DecidableEq, Repr

def ReadFailure.message : ReadFailure → String
  | missing => "No such file or directory (os error 2)"
  | isDirectory => "Is a directory (os error 21)"
  | notDirectory => "Not a directory (os error 20)"
  | nameTooLong => "File name too long (os error 36)"
  | nulInName => "file name contained an unexpected NUL byte"
  | other reason => reason

abbrev FileReader := String → Except ReadFailure ByteArray

inductive Entry
  | file (bytes : ByteArray)
  | directory

structure Workspace where
  entries : List (List String × Entry)

/-- Where a path leads. Of the directories above the working directory, up to the root, nothing is
known but that they are directories. -/
inductive Place
  | above
  | inside (path : List String)
deriving DecidableEq, Repr

def Place.parent : Place → Place
  | above => above
  | inside [] => above
  | inside path => inside path.dropLast

namespace Workspace

def parts (name : String) : List String := (name.toList.splitOn '/').map String.ofList

def isHere (part : String) : Bool := part = "" || part = "."

def ofNamed (files : List (String × Entry)) : Workspace :=
  ⟨files.map fun (name, entry) => ((parts name).filter (!isHere ·), entry)⟩

/-- An entry, or a directory that entries lie in; the working directory itself is one. -/
def find? (workspace : Workspace) : Place → Option Entry
  | .above => some .directory
  | .inside path =>
    match workspace.entries.lookup path with
    | some entry => some entry
    | none =>
      if path.isEmpty || workspace.entries.any (path.isPrefixOf ·.1) then some .directory else none

def nameLimit : Nat := 255

def pathLimit : Nat := 4096

/-- Every part but the last one must lead to a directory. -/
def walk (workspace : Workspace) (place : Place) : List String → Except ReadFailure Entry
  | [] => (workspace.find? place).elim (.error .missing) .ok
  | part :: rest =>
    match workspace.find? place with
    | none => .error .missing
    | some (.file _) => .error .notDirectory
    | some .directory =>
      if isHere part then walk workspace place rest
      else if part = ".." then walk workspace place.parent rest
      else if nameLimit < part.utf8ByteSize then .error .nameTooLong
      else match place with
        | .above => .error .missing
        | .inside path => walk workspace (.inside (path ++ [part])) rest

def readEntry : Entry → Except ReadFailure ByteArray
  | .file bytes => .ok bytes
  | .directory => .error .isDirectory

def start (name : String) : Place := if name.startsWith "/" then .above else .inside []

def read (workspace : Workspace) : FileReader := fun name =>
  if name.toList.contains '\x00' then .error .nulInName
  else if name.isEmpty then .error .missing
  else if pathLimit ≤ name.utf8ByteSize then .error .nameTooLong
  else workspace.walk (start name) (parts name) >>= readEntry

end Workspace
end DerivationReplay
